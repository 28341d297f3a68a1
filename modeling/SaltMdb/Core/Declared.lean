import SaltMdb.Core.Bootstrap
import SaltMdb.Library.References
import SaltMdb.Lineage.Consolidated
import SaltMdb.System.Atomicity

/-! The declarations of the active cores over runs of calls: what each call leaves valid, and the promotion that
no check stands before. -/

namespace SaltMdb
open Transactions

variable {env : Env}

/-! ### Valid declarations -/

/-- The active cores answer for the details they declare. -/
def detailScheme : References.Scheme EntityId Entity where
  answers e := e.activeCore = true
  refs e := e.coreDetailMemoryIds
  good core id e := core.coreDetailMemoryIds.length ≤ coreMaxDetailMemoryIds ∧ NormalId id ∧ e.scope = .shared ∧
    e.isCore = false ∧ Text.contains core.fullContent e.title = true ∧ Text.contains core.fullContent id = true

def EntityTable.Declares (T : EntityTable) : Prop := detailScheme.Sound T.find

variable {T : EntityTable} {db : Db}

theorem EntityTable.Declares.valid (h : db.entities.Declares) {e : Entity} (member : e ∈ db.entities.rows)
    (active : e.activeCore = true) : detailIdViolation (some db) e = none := by
  have good := h e.id e (EntityTable.find_mem member) active
  have each : ∀ id ∈ e.coreDetailMemoryIds, NormalId id ∧ validateDetailReference db id e.fullContent = .ok () := by
    intro id listed
    obtain ⟨t, found, _, normal, shared, plain, titled, mentioned⟩ := good id listed
    refine ⟨normal, ?_⟩
    unfold validateDetailReference
    simp [found, shared, plain, titled, mentioned]
  unfold detailIdViolation
  cases listed : e.coreDetailMemoryIds with
  | nil => rfl
  | cons id rest =>
    obtain ⟨_, _, few, _⟩ := good id (by rw [show detailScheme.refs e = e.coreDetailMemoryIds from rfl, listed]; exact List.mem_cons_self)
    rw [listed] at few each
    obtain ⟨kept, checked⟩ := validateDetailMemoryIds_valid few each
    simp only [List.isEmpty_cons, Bool.false_eq_true, if_false, checked]

/-- What the check of a declaration establishes of the row that is written with it. -/
theorem checked_of_validated {references : List String} {e : Entity}
    (h : validateDetailMemoryIds db references e.fullContent = .ok e.coreDetailMemoryIds) :
    detailScheme.Checked db.entities.find e := by
  obtain ⟨normal, few⟩ := validateDetailMemoryIds_normal h
  intro id listed
  obtain ⟨declarable, _⟩ := validateDetailMemoryIds_ok h id listed
  obtain ⟨t, found, shared, plain, titled⟩ := declarable.target
  exact ⟨t, found, few, normal id listed, shared, plain, titled, declarable.mentioned⟩

/-! ### Writes -/

theorem mild_row {e : Entity} {f : EntityColumns → EntityColumns} (mild : Mild f) (sel : Entity → Bool) :
    detailScheme.Mild e (e.setIf sel f) := by
  unfold Entity.setIf
  split
  · refine ⟨?_, fun _ => mild.details _, ?_, ?_⟩
    · intro answers
      simp only [detailScheme, Entity.activeCore, Entity.live, Bool.and_eq_true, bne_iff_ne] at answers ⊢
      refine ⟨mild.isCore _ answers.1, ?_⟩
      rcases mild.retires e.toEntityColumns with same | gone
      · exact same ▸ answers.2
      · exact absurd gone answers.2
    · rintro - id t ⟨few, normal, shared, plain, titled, mentioned⟩
      have content := mild.fullContent e.toEntityColumns
      have details := mild.details e.toEntityColumns
      refine ⟨?_, normal, shared, plain, ?_, ?_⟩
      · rw [details]; exact few
      · rw [content]; exact titled
      · rw [content]; exact mentioned
    · rintro core id ⟨few, normal, shared, plain, titled, mentioned⟩
      refine ⟨few, normal, (mild.scope _).trans shared, ?_, ?_, mentioned⟩
      · exact Bool.eq_false_iff.mpr fun core => by simp [mild.isCore _ core] at plain
      · rw [mild.title]; exact titled
  · exact .refl e

theorem EntityTable.Declares.updateWhere (h : T.Declares) (sel : Entity → Bool) {f : EntityColumns → EntityColumns}
    (mild : Mild f) : (T.updateWhere sel f).Declares := by
  refine References.Scheme.Sound.mild h ?_ ?_
  · intro id e found
    exact ⟨e.setIf sel f, by rw [EntityTable.find_updateWhere, found]; rfl, mild_row mild sel⟩
  · intro id missing
    rw [EntityTable.find_updateWhere, missing]
    rfl

theorem find_append_update {e : Entity} (free : T.find e.id = none) :
    (T.append e free).find = Function.update T.find e.id (some e) := by
  funext id
  rw [EntityTable.find_append, Function.update_apply]

theorem find_updateId_update {e : Entity} {f : EntityColumns → EntityColumns} (found : T.find e.id = some e) :
    (T.updateId e.id f).find = Function.update T.find e.id (some { e with toEntityColumns := f e.toEntityColumns }) := by
  funext id
  rw [EntityTable.find_updateId, Function.update_apply]
  split
  · rename_i same
    rw [same, found]
    rfl
  · rw [Option.map_id']

/-- A new row, with a declaration that was checked. -/
theorem EntityTable.Declares.append (h : T.Declares) {e : Entity} (free : T.find e.id = none)
    (checked : detailScheme.Checked T.find e) : (T.append e free).Declares := by
  unfold EntityTable.Declares
  rw [find_append_update free]
  exact References.Scheme.Sound.arrive h free checked

/-- No active core declares the memory, unless it is core itself already. -/
def EntityTable.Undeclared (T : EntityTable) (row : Entity) : Prop :=
  row.isCore = false → ∀ e ∈ T.rows, e.activeCore = true → row.id ∉ e.coreDetailMemoryIds

/-- The row of an id after an update that its declarers outlive. -/
theorem EntityTable.Declares.age (h : T.Declares) {row : Entity} (found : T.find row.id = some row)
    {f : EntityColumns → EntityColumns} (mild : detailScheme.Mild row { row with toEntityColumns := f row.toEntityColumns }) :
    (T.updateId row.id f).Declares := by
  unfold EntityTable.Declares
  rw [find_updateId_update found]
  refine References.Scheme.Sound.mild h ?_ ?_
  · intro id e here
    rw [Function.update_apply]
    split
    · rename_i same
      obtain rfl := Option.some.inj (found.symm.trans (same ▸ here))
      exact ⟨_, rfl, mild⟩
    · exact ⟨e, here, .refl e⟩
  · intro id missing
    rw [Function.update_apply, if_neg]
    · exact missing
    · rintro rfl
      simp [found] at missing

/-- The declaration of a row that is there, checked, of a memory that no other core declares. -/
theorem EntityTable.Declares.declare (h : T.Declares) {row : Entity} (found : T.find row.id = some row)
    {f : EntityColumns → EntityColumns}
    (checked : detailScheme.Checked T.find { row with toEntityColumns := f row.toEntityColumns })
    (self : row.id ∉ (f row.toEntityColumns).coreDetailMemoryIds) (spared : T.Undeclared row) :
    (T.updateId row.id f).Declares := by
  unfold EntityTable.Declares
  rw [find_updateId_update found]
  refine References.Scheme.Sound.write h checked (fun _ => self) fun id s here answers _ listed => ?_
  cases core : row.isCore with
  | false => exact spared core s (EntityTable.find_some here).1 answers listed
  | true =>
    obtain ⟨t, target, _, _, _, plain, _⟩ := h id s here answers row.id listed
    obtain rfl := Option.some.inj (found.symm.trans target)
    simp [core] at plain

/-! ### Services that declare nothing of their own -/

/-- What a service may do to the declarations. -/
def Db.Honours (d d' : Db) : Prop := d.entities.Declares → d'.entities.Declares

theorem honours_of_eq {d d' : Db} (same : d'.entities = d.entities) : d.Honours d' := fun h => same ▸ h

theorem honours_steady (env : Env) : Steady env Db.Honours (fun _ _ => True) (fun _ _ => True) where
  refl := fun _ h => h
  trans := fun _ _ _ first second h => second (first h)
  silent := fun entities _ => honours_of_eq entities
  settle := fun _ sel _ mild h => h.updateWhere sel mild
  store := fun call => honours_of_eq call.selectable.entities
  invalidate := by
    intro args d r d' _ call
    have only : d.OnlyRelations Edge.Selectable d' := call.onlyRelations
    exact honours_of_eq only.entities
  archive := fun now _ h => h.updateWhere _ (mild_archive now)
  names_detail := fun _ => trivial
  names_moved := fun _ _ => trivial
  spares_archive := fun _ _ _ => trivial
  spares_silent := fun _ _ => trivial

/-- A derived memory declares what was checked, or nothing. -/
theorem checked_of_derived {now : Instant} {sources : List EntityId} {declaration : CoreDeclaration} {content : String}
    {scope : Scope} {entry : CoreEntry} {state : CoreState} {e : Entity}
    (h : resolveDerivedCoreState env db now sources declaration content scope entry = .ok state)
    (text : e.fullContent = content) (details : e.coreDetailMemoryIds = state.coreDetailMemoryIds) :
    detailScheme.Checked db.entities.find e := by
  rcases resolveDerivedCoreState_ok h with ⟨_, rfl⟩ | ⟨_, _, checked⟩
  · intro id listed
    rw [show detailScheme.refs e = e.coreDetailMemoryIds from rfl, details] at listed
    simp [nonCoreState] at listed
  · rw [← text, ← details] at checked
    exact checked_of_validated checked

theorem honours_replaced (env : Env) : Steady.Replaced env Db.Honours := by
  intro operation plan repoint n now state w w' receipt _ resolved body before
  obtain ⟨free, entities⟩ := replacementBody_entities body
  rw [entities]
  exact (before.append free (checked_of_derived resolved rfl rfl)).updateWhere _ (mild_archive plan.now)

theorem honours_committed (env : Env) : Steady.Committed env Db.Honours := by
  intro bulk request plan n now w w' orphaned _ committed before
  obtain ⟨state, free, resolved, entities⟩ := consolidationCommit_entities committed
  rw [entities]
  exact (before.append free (checked_of_derived resolved rfl rfl)).updateWhere _ (mild_archive now)

/-! ### Storing -/

theorem storeProposal_existing {request : StoreRequest} {basics : StoreBasics} {content : StoreContent}
    {resolved : Option EntityId} {p : StoreProposal} {row : Entity}
    (h : storeProposal db request basics content resolved = .ok p) (found : p.resolvedEntityId.bind db.entities.find = some row) :
    p.title = row.title ∧ p.scope = row.scope ∧ p.redactedContent = row.fullContent ∧ p.skipScdHistory = true := by
  unfold storeProposal at h
  split at h
  · rename_i fresh
    obtain rfl := Except.ok.inj h
    simp [fresh] at found
  · rename_i current here
    split at h
    · obtain rfl := Except.ok.inj h
      obtain rfl := Option.some.inj (here.symm.trans found)
      exact ⟨rfl, rfl, rfl, rfl⟩
    · simp at h

/-- A store that meets a row keeps what the declarations of others rest on. -/
theorem prepareStore_existing {now : Instant} {preview : EntityId} {request : StoreRequest} {p : StoreProposal} {row : Entity}
    (h : prepareStore env db now preview request = .ok p) (found : p.resolvedEntityId.bind db.entities.find = some row) :
    p.title = row.title ∧ p.scope = row.scope ∧ p.redactedContent = row.fullContent ∧ p.skipScdHistory = true := by
  obtain ⟨basics, _, h⟩ := Checks.bind_ok h
  obtain ⟨content, _, h⟩ := Checks.bind_ok h
  obtain ⟨resolved, _, h⟩ := Checks.bind_ok h
  obtain ⟨proposal, proposed, h⟩ := Checks.bind_ok h
  obtain ⟨_, _, h⟩ := Checks.bind_ok h
  obtain rfl := Except.ok.inj h
  exact storeProposal_existing proposed found

theorem resolveStoreCoreState_ok {now : Instant} {existing : Option Entity} {declaration : CoreDeclaration}
    {content : String} {scope : Scope} {state : CoreState}
    (h : resolveStoreCoreState env db now existing declaration content scope = .ok state) :
    (state.isCore = false ∧ state.coreDetailMemoryIds = []) ∨
      (declaration.isCore.getD ((existing.map (·.isCore)).getD false) = true ∧
        ∃ references, validateDetailMemoryIds db references content = .ok state.coreDetailMemoryIds) := by
  unfold resolveStoreCoreState at h
  dsimp only at h
  split at h
  · split at h
    · simp at h
    · obtain rfl := Except.ok.inj h
      exact Or.inl ⟨rfl, rfl⟩
  · rename_i effective
    split at h
    · simp at h
    · obtain ⟨_, _, h⟩ := Checks.bind_ok h
      obtain ⟨_, _, h⟩ := Checks.bind_ok h
      obtain ⟨_, _, h⟩ := Checks.bind_ok h
      obtain ⟨_, _, h⟩ := Checks.bind_ok h
      obtain ⟨details, checked, h⟩ := Checks.bind_ok h
      obtain rfl := Except.ok.inj h
      exact Or.inr ⟨by simpa using effective, _, checked⟩

theorem resolveRawCoreState_ok {now : Instant} {p : StoreProposal} {id : EntityId} {state : CoreState}
    (h : resolveRawCoreState env db now p id = .ok state) :
    resolveStoreCoreState env db now (p.resolvedEntityId.bind db.entities.find) p.core p.redactedContent p.scope =
      .ok state := by
  obtain ⟨settled, decided, h⟩ := Checks.bind_ok h
  have same : settled = state := by
    split at h
    · obtain ⟨_, _, h⟩ := Checks.bind_ok h
      split at h
      · split at h
        · simp at h
        · exact Except.ok.inj h
      · exact Except.ok.inj h
    · exact Except.ok.inj h
  rw [← same]
  exact Checks.mapError_ok decided

/-- The entities after a write that returns: the history is kept first, then the row is written. -/
theorem persistRawEntity_writes {p : StoreProposal} {id : EntityId} {now : Instant} {state : CoreState}
    {existing : Option Entity} {w w' : World Db Supply}
    (h : (persistRawEntity env p id now state existing).run w = (.ok (), w')) :
    ∃ v, (keepScdHistory env p id existing).run w = (.ok (), v) ∧
      w'.durable.entities = v.durable.entities.upsert { p.columns now state with id := id } (p.update now state) ∧
      id ∉ state.coreDetailMemoryIds := by
  unfold persistRawEntity at h
  obtain ⟨_, v₁, history, h⟩ := Txn.bind_ok h
  obtain ⟨_, v₂, deleted, h⟩ := Txn.bind_ok h
  obtain ⟨_, v₃, written, h⟩ := Txn.bind_ok h
  obtain ⟨_, v₄, reconciled, h⟩ := Txn.bind_ok h
  obtain ⟨_, v₅, tagged, h⟩ := Txn.bind_ok h
  obtain ⟨_, v₆, synced, jobs⟩ := Txn.bind_ok h
  have deleted := (within_ok (deleteRawTags_settles _ _).within deleted).entities
  obtain ⟨_, rfl⟩ := Prod.mk.inj written
  have tagged := (within_ok (writeRawTags_settles _ _ _).within tagged).entities
  have synced := (within_ok (syncRawCoreTag_settles _ _).within synced).entities
  have jobs := (within_ok (enqueueRawEmbeddingJobs_settles _ _ _).within jobs).entities
  refine ⟨v₁, history, ?_, reconcileDetailRelations_self reconciled⟩
  rw [jobs, synced, tagged, (within_ok (reconcileDetailRelations_within _ _ _ _) reconciled).entities]
  dsimp only
  rw [deleted]

/-- The write of a fresh row, or of one whose history is not copied. -/
theorem persistRawEntity_entities {p : StoreProposal} {id : EntityId} {now : Instant} {state : CoreState}
    {existing : Option Entity} {w w' : World Db Supply} (administrative : ∀ row, existing = some row → p.skipScdHistory = true)
    (h : (persistRawEntity env p id now state existing).run w = (.ok (), w')) :
    w'.durable.entities = w.durable.entities.upsert { p.columns now state with id := id } (p.update now state) ∧
      id ∉ state.coreDetailMemoryIds := by
  obtain ⟨v, history, written⟩ := persistRawEntity_writes h
  have unmoved : v = w := by
    unfold keepScdHistory at history
    cases existing with
    | none => exact (Prod.mk.inj history).2.symm
    | some row =>
      have skipped := administrative row rfl
      dsimp only at history
      rw [skipped] at history
      exact (Prod.mk.inj history).2.symm
  rwa [unmoved] at written

/-- Every memory that the write is going to make core is one that no core declares. -/
def StoreProposal.Spares (p : StoreProposal) (T : EntityTable) : Prop :=
  ∀ row, p.resolvedEntityId.bind T.find = some row → p.core.isCore = some true → T.Undeclared row

theorem upsert_declares (h : T.Declares) {p : StoreProposal} {id : EntityId} {now : Instant} {state : CoreState}
    (target : T.find id = p.resolvedEntityId.bind T.find)
    (kept : ∀ row, T.find id = some row →
      p.title = row.title ∧ p.scope = row.scope ∧ p.redactedContent = row.fullContent)
    (settled : (state.isCore = false ∧ state.coreDetailMemoryIds = []) ∨
      (p.core.isCore.getD (((T.find id).map (·.isCore)).getD false) = true ∧ ∃ (db : Db) (references : List String),
        db.entities = T ∧ validateDetailMemoryIds db references p.redactedContent = .ok state.coreDetailMemoryIds))
    (self : id ∉ state.coreDetailMemoryIds) (spared : p.Spares T) :
    (T.upsert { p.columns now state with id := id } (p.update now state)).Declares := by
  have checked : ∀ e : Entity, e.fullContent = p.redactedContent → e.coreDetailMemoryIds = state.coreDetailMemoryIds →
      detailScheme.Checked T.find e := by
    intro e text details
    rcases settled with ⟨_, none_⟩ | ⟨_, db, references, rfl, validated⟩
    · intro d listed
      rw [show detailScheme.refs e = e.coreDetailMemoryIds from rfl, details, none_] at listed
      simp at listed
    · rw [← text, ← details] at validated
      exact checked_of_validated validated
  unfold EntityTable.upsert
  split
  · rename_i free
    exact h.append free (checked _ rfl rfl)
  · rename_i taken
    obtain ⟨row, found⟩ := Option.ne_none_iff_exists'.mp taken
    dsimp only at found
    obtain ⟨title, scope, content⟩ := kept row found
    obtain ⟨_, rfl⟩ := EntityTable.find_some found
    rcases settled with ⟨plain, none_⟩ | ⟨effective, _⟩
    · refine h.age found ⟨?_, ?_, ?_, ?_⟩
      · intro answers
        simp [detailScheme, Entity.activeCore, StoreProposal.update, plain] at answers
      · intro answers
        simp [detailScheme, Entity.activeCore, StoreProposal.update, plain] at answers
      · intro answers
        simp [detailScheme, Entity.activeCore, StoreProposal.update, plain] at answers
      · rintro core id ⟨few, normal, shared, _, titled, mentioned⟩
        refine ⟨few, normal, scope.trans shared, plain, ?_, mentioned⟩
        rw [show (p.update now state row.toEntityColumns).title = p.title from rfl, title]
        exact titled
    · refine h.declare found (checked _ rfl rfl) self fun notCore => ?_
      rw [found, Option.map_some, Option.getD_some, notCore] at effective
      cases asked : p.core.isCore with
      | none => simp [asked] at effective
      | some flag =>
        rw [asked, Option.getD_some] at effective
        subst flag
        exact spared row (target ▸ found) asked notCore

/-- A write that returns: the row it targets, the core state it settles and what it persists. -/
theorem storeRawEntity_ok {p : StoreProposal} {w w' : World Db Supply} {stored : EntityId × Bool}
    (h : (storeRawEntity env p).run w = (.ok stored, w')) :
    ∃ id state u, p.resolvedEntityId.getD (env.uuid4 w.transient.draws) = id ∧
      resolveRawCoreState env w.durable (reading env w) p id = .ok state ∧ u.durable = w.durable ∧
      (persistRawEntity env p id (reading env w) state (w.durable.entities.find id)).run u = (.ok (), w') := by
  unfold storeRawEntity at h
  obtain ⟨id, v, targeted, h⟩ := Txn.bind_ok h
  have target : p.resolvedEntityId.getD (env.uuid4 w.transient.draws) = id ∧ v.durable = w.durable ∧ reading env v = reading env w := by
    unfold storeTargetId at targeted
    cases resolved : p.resolvedEntityId with
    | none =>
      rw [resolved] at targeted
      obtain ⟨given, rfl⟩ := Prod.mk.inj targeted
      exact ⟨Except.ok.inj given, rfl, rfl⟩
    | some target =>
      rw [resolved] at targeted
      obtain ⟨given, rfl⟩ := Prod.mk.inj targeted
      exact ⟨Except.ok.inj given, rfl, rfl⟩
  obtain ⟨target, same, clock⟩ := target
  rw [Tx.run_now_bind, Tx.run_db_bind] at h
  obtain ⟨state, u, decided, h⟩ := Txn.bind_ok h
  obtain ⟨resolved, rfl⟩ := Prod.mk.inj decided
  obtain ⟨_, x, persisted, last⟩ := Txn.bind_ok h
  obtain ⟨_, rfl⟩ := Prod.mk.inj last
  dsimp only [tick_durable] at resolved persisted
  rw [same, clock] at resolved persisted
  exact ⟨id, state, tick v, target, resolved, same, persisted⟩

theorem storeRawEntity_honours {p : StoreProposal} {w w' : World Db Supply} {stored : EntityId × Bool}
    (unused : w.durable.entities.find (env.uuid4 w.transient.draws) = none)
    (kept : ∀ row, p.resolvedEntityId.bind w.durable.entities.find = some row →
      p.title = row.title ∧ p.scope = row.scope ∧ p.redactedContent = row.fullContent ∧ p.skipScdHistory = true)
    (spared : p.Spares w.durable.entities) (h : (storeRawEntity env p).run w = (.ok stored, w')) :
    w.durable.Honours w'.durable := by
  intro before
  obtain ⟨id, state, u, named, resolved, same, persisted⟩ := storeRawEntity_ok h
  have target : w.durable.entities.find id = p.resolvedEntityId.bind w.durable.entities.find := by
    cases given : p.resolvedEntityId with
    | none =>
      rw [given, Option.getD_none] at named
      exact named ▸ unused
    | some other =>
      rw [given, Option.getD_some] at named
      exact named ▸ rfl
  obtain ⟨entities, self⟩ := persistRawEntity_entities (fun row found => (kept row (target ▸ found)).2.2.2) persisted
  have settled := resolveStoreCoreState_ok (resolveRawCoreState_ok resolved)
  rw [← target] at settled
  rw [entities, same]
  refine upsert_declares before target (fun row found => ?_) ?_ self spared
  · obtain ⟨title, scope, content, _⟩ := kept row (target ▸ found)
    exact ⟨title, scope, content⟩
  · exact settled.imp_right fun ⟨effective, references, checked⟩ => ⟨effective, w.durable, references, rfl, checked⟩

/-- A store that is accepted wrote what it had prepared. -/
theorem storeMemory_ok {mode : Mode} {request : StoreRequest} {w w' : World Db Supply} {answer : StoreAnswer}
    (ok : answer.isOk = true) (h : (storeMemory env mode request).run w = (.ok answer, w')) :
    (∃ refused, preparedStore env request w = .error refused ∧ w'.durable = w.durable) ∨
      ∃ p stored, preparedStore env request w = .ok p ∧ (storeRawEntity env p).run (tick (draw w)) = (.ok stored, w') := by
  unfold storeMemory at h
  rw [Tx.run_db_bind, Tx.run_uuid4_bind, Tx.run_now_bind] at h
  unfold preparedStore
  cases prepared : prepareStore env w.durable (reading env (draw w)) (env.uuid4 w.transient.draws) request with
  | error refused =>
    rw [prepared] at h
    obtain ⟨_, rfl⟩ := Prod.mk.inj h
    exact .inl ⟨refused, rfl, rfl⟩
  | ok p =>
    rw [prepared] at h
    dsimp only at h
    rw [Txn.run_tryCatch] at h
    split at h
    · rename_i ran
      obtain ⟨stored, v, stores, last⟩ := Txn.bind_ok ran
      obtain ⟨_, rfl⟩ := Prod.mk.inj last
      obtain ⟨_, rfl⟩ := Prod.mk.inj h
      exact .inr ⟨p, stored, rfl, retrying_ok.mp stores⟩
    · rename_i e v _
      obtain ⟨same, _⟩ := Prod.mk.inj h
      obtain rfl := Except.ok.inj same
      rw [governanceAnswer_refuses] at ok
      simp at ok

/-- A store that is accepted and promotes no declared detail. -/
theorem storeMemory_honours {mode : Mode} {request : StoreRequest} {w w' : World Db Supply} {answer : StoreAnswer}
    (unused : w.durable.entities.find (env.uuid4 (w.transient.draws + 1)) = none)
    (spared : ∀ p, preparedStore env request w = .ok p → p.Spares w.durable.entities)
    (ok : answer.isOk = true) (h : (storeMemory env mode request).run w = (.ok answer, w')) :
    w.durable.Honours w'.durable := by
  rcases storeMemory_ok ok h with ⟨_, _, same⟩ | ⟨p, stored, prepared, stores⟩
  · exact honours_of_eq (congrArg Db.entities same)
  · exact storeRawEntity_honours (w := tick (draw w)) unused (fun row => prepareStore_existing prepared) (spared p prepared) stores

/-! ### Declaring -/

theorem ownedMemoryTarget_ok {ref : String} {agentId : Option String} {foreign : Error} {row : Entity}
    (h : ownedMemoryTarget env db ref agentId foreign = .ok row) : db.entities.find row.id = some row := by
  unfold ownedMemoryTarget at h
  dsimp only at h
  split at h
  · simp at h
  · split at h
    · simp at h
    · rename_i target found
      obtain ⟨id, _, here⟩ := Option.bind_eq_some_iff.mp found
      obtain ⟨member, rfl⟩ := EntityTable.find_some here
      split at h
      · obtain rfl := Except.ok.inj h
        exact here
      · split at h <;> simp at h

/-- What a declaration passed before it is written. -/
theorem setCoreDecision_admitted {now : Instant} {request : SetCoreRequest} {row : Entity} {state : CoreState}
    (h : setCoreDecision env db now request = .write row state) :
    db.entities.find row.id = some row ∧ row.status = .raw ∧ setCoreAdmission env db now row state = .ok () ∧
      ∃ details, resolveStoreCoreState env db now (some row)
        ⟨some true, request.coreReason, request.coreExitCondition, none, details⟩ row.fullContent row.scope = .ok state := by
  unfold setCoreDecision at h
  split at h
  · simp at h
  · rename_i target owned
    split at h
    · simp at h
    · rename_i raw
      split at h
      · simp at h
      · rename_i settled decided
        split at h
        · simp at h
        · split at h
          · simp at h
          · rename_i admitted
            obtain ⟨rfl, rfl⟩ := SetCoreDecision.write.inj h
            unfold setCoreState at decided
            dsimp only at decided
            generalize (if !target.isCore && request.detailMemoryIds.isNone then some [] else request.detailMemoryIds) =
              details at decided
            split at decided
            · simp at decided
            · exact ⟨ownedMemoryTarget_ok owned, not_not.mp raw, admitted, _, Checks.mapError_ok decided⟩

theorem setCoreDecision_write {now : Instant} {request : SetCoreRequest} {row : Entity} {state : CoreState}
    (h : setCoreDecision env db now request = .write row state) :
    db.entities.find row.id = some row ∧
      ∃ references, validateDetailMemoryIds db references row.fullContent = .ok state.coreDetailMemoryIds := by
  obtain ⟨found, _, _, details, resolved⟩ := setCoreDecision_admitted h
  refine ⟨found, ?_⟩
  rcases resolveStoreCoreState_ok resolved with ⟨_, none_⟩ | ⟨_, checked⟩
  · exact ⟨[], by rw [none_]; rfl⟩
  · exact checked

/-- What a declaration that returns left of the memories. -/
theorem setCoreMemory_ok {mode : Mode} {request : SetCoreRequest} {w w' : World Db Supply} {answer : Envelope CoreReceipt}
    (h : (setCoreMemory env mode request).run w = (.ok answer, w')) :
    w'.durable.entities = w.durable.entities ∨ ∃ row state now,
      setCoreDecision env w.durable (reading env w) request = .write row state ∧
      w'.durable.entities = w.durable.entities.updateId row.id (state.declare now) ∧ row.id ∉ state.coreDetailMemoryIds := by
  unfold setCoreMemory at h
  split at h
  · obtain ⟨_, rfl⟩ := Prod.mk.inj h
    exact .inl rfl
  · have ran := retrying_ok.mp h
    unfold setCoreTransaction at ran
    rw [Tx.run_db_bind, Tx.run_now_bind] at ran
    cases decided : setCoreDecision env w.durable (reading env w) request with
    | refuse e =>
      rw [decided] at ran
      obtain ⟨_, rfl⟩ := Prod.mk.inj ran
      exact .inl rfl
    | unchanged id state =>
      rw [decided] at ran
      obtain ⟨_, rfl⟩ := Prod.mk.inj ran
      exact .inl rfl
    | write row state =>
      rw [decided] at ran
      dsimp only at ran
      unfold setCoreWrite at ran
      rw [Tx.run_now_bind] at ran
      obtain ⟨_, u, written, ran⟩ := Txn.bind_ok ran
      obtain ⟨_, v, reconciled, ran⟩ := Txn.bind_ok ran
      obtain ⟨_, x, synced, last⟩ := Txn.bind_ok ran
      obtain ⟨_, rfl⟩ := Prod.mk.inj last
      obtain ⟨_, rfl⟩ := Prod.mk.inj written
      have synced := (within_ok (syncRawCoreTag_settles _ _).within synced).entities
      have details := (within_ok (reconcileDetailRelations_within _ _ _ _) reconciled).entities
      exact .inr ⟨row, state, _, rfl, by rw [synced, details]; rfl, reconcileDetailRelations_self reconciled⟩

theorem setCoreMemory_honours {mode : Mode} {request : SetCoreRequest} {w w' : World Db Supply}
    {answer : Envelope CoreReceipt}
    (spared : ∀ row state, setCoreDecision env w.durable (reading env w) request = .write row state →
      w.durable.entities.Undeclared row)
    (h : (setCoreMemory env mode request).run w = (.ok answer, w')) : w.durable.Honours w'.durable := by
  rcases setCoreMemory_ok h with same | ⟨row, state, now, decided, written, self⟩
  · exact honours_of_eq same
  · obtain ⟨found, references, validated⟩ := setCoreDecision_write decided
    intro before
    rw [written]
    exact before.declare found (checked_of_validated validated) self (spared row state decided)

/-! ### Runs -/

/-- A call that makes a memory core finds no active core that declares it. -/
def Call.SparesDetails (env : Env) (call : Mode × Call) (w : World Db Supply) : Prop :=
  match call.2 with
  | .storeMemory request => ∀ p, preparedStore env request w = .ok p → p.Spares w.durable.entities
  | .setCoreMemory request => ∀ row state, setCoreDecision env w.durable (reading env w) request = .write row state →
      w.durable.entities.Undeclared row
  | _ => True

/-- The id that a store draws for a new memory is not in use. -/
def Call.DrawsUnused (env : Env) (call : Mode × Call) (w : World Db Supply) : Prop :=
  match call.2 with
  | .storeMemory _ => w.durable.entities.find (env.uuid4 (w.transient.draws + 1)) = none
  | _ => True

def Call.Accepted (env : Env) (call : Mode × Call) (w : World Db Supply) : Prop := call.2.succeeded env call.1 w = true

/-- An accepted call ran its service to a success, and left the world that the service left. -/
theorem Call.Accepted.ran {mode : Mode} {call : Call} {w : World Db Supply} (h : Call.Accepted env (mode, call) w) :
    (call.service env mode).run w = (.ok true, Call.next env w (mode, call)) := by
  unfold Call.Accepted Call.succeeded at h
  unfold Call.next
  cases ran : call.run env mode w with
  | mk result w' =>
    rw [ran] at h
    cases result with
    | error e => exact absurd h Bool.false_ne_true
    | ok flag =>
      have told : flag = true := h
      subst told
      cases mode with
      | direct => exact ran
      | coordinator => exact Txn.atomic_ok.mp ran

theorem Call.Accepted.service {mode : Mode} {call : Call} {w : World Db Supply} (h : Call.Accepted env (mode, call) w) :
    ∃ w', (call.service env mode).run w = (.ok true, w') :=
  ⟨_, h.ran⟩

theorem reports_true {α : Type} {service : Tx (Envelope α)} {w w' : World Db Supply}
    (h : (reports service).run w = (.ok true, w')) : ∃ answer, service.run w = (.ok answer, w') ∧ answer.isOk = true := by
  obtain ⟨answer, v, ran, last⟩ := Txn.bind_ok h
  obtain ⟨told, rfl⟩ := Prod.mk.inj last
  exact ⟨answer, ran, Except.ok.inj told⟩

theorem next_honours {call : Mode × Call} {w : World Db Supply} (accepted : Call.Accepted env call w)
    (unused : Call.DrawsUnused env call w) (spares : Call.SparesDetails env call w) :
    w.durable.Honours (Call.next env w call).durable := by
  obtain ⟨mode, call⟩ := call
  have recording := (honours_steady env).recording (honours_replaced env) (honours_committed env)
  refine (honours_steady env).next ⟨?_, ?_⟩ recording (allowed_always call w)
  · rintro request rfl
    obtain ⟨w', ran⟩ := accepted.service
    obtain ⟨answer, ran, ok⟩ := reports_true ran
    rw [ran]
    exact storeMemory_honours unused spares ok ran
  · rintro request rfl
    obtain ⟨w', ran⟩ := accepted.service
    obtain ⟨answer, ran, _⟩ := reports_true ran
    rw [ran]
    exact setCoreMemory_honours spares ran

/-- Every active core declares shared memories that are not core and that its content mentions, and the bootstrap
finds nothing wrong with any declaration. -/
structure Db.DetailsHold (env : Env) (db : Db) : Prop where
  declared : ∀ e ∈ db.entities.rows, e.activeCore = true → ∀ id ∈ e.coreDetailMemoryIds,
    ∃ m, db.entities.find id = some m ∧ m.scope = .shared ∧ m.isCore = false ∧
      Text.contains e.fullContent m.title = true ∧ Text.contains e.fullContent id = true
  unviolated : ∀ e ∈ db.entities.rows, e.activeCore = true → detailIdViolation (some db) e = none
  bootstrap : ∀ now, findInvariantViolations env now (loadActiveCores env db now) (some db) =
    findInvariantViolations env now (loadActiveCores env db now) none

theorem detailsHold_of {db : Db} (h : db.entities.Declares) : db.DetailsHold env where
  declared := by
    intro e member active id listed
    obtain ⟨m, found, _, _, good⟩ := h e.id e (EntityTable.find_mem member) active id listed
    exact ⟨m, found, good⟩
  unviolated := fun e member active => h.valid member active
  bootstrap := by
    intro now
    refine findInvariantViolations_conn env fun e member => ?_
    obtain ⟨here, active⟩ := mem_loadActiveCores.mp member
    exact h.valid here active

theorem states_detailsHold (env : Env) (calls : List (Mode × Call)) (supply : Supply)
    (accepted : Call.Guarded env (Call.Accepted env) calls ⟨.init, supply⟩)
    (unused : Call.Guarded env (Call.DrawsUnused env) calls ⟨.init, supply⟩)
    (spares : Call.Guarded env (Call.SparesDetails env) calls ⟨.init, supply⟩) :
    ∀ w ∈ Call.states env calls ⟨.init, supply⟩, w.durable.DetailsHold env := by
  have start : Db.init.entities.Declares := fun id e found => by simp [Db.init, EntityTable.find, EntityTable.empty] at found
  have declares : ∀ w ∈ Call.states env calls ⟨.init, supply⟩, w.durable.entities.Declares :=
    Runs.invariant_of_guarded (P := fun w : World Db Supply => w.durable.entities.Declares)
      (fun w call before guards => next_honours guards.1 guards.2.1 guards.2.2 before) start
      (accepted.and (unused.and spares))
  exact fun w member => detailsHold_of (declares w member)

/-! ### Calls step by step -/

theorem ok_of_toOption {ε α : Type} {x : Except ε α} {a : α} (h : x.toOption = some a) : x = .ok a := by
  cases x with
  | error e => exact absurd h (by simp [Except.toOption])
  | ok b => exact congrArg Except.ok (Option.some.inj h)

/-- What a call of a run did, once it is known to have been accepted. -/
theorem accepted_next {call : Mode × Call} {w w' : World Db Supply} (ran : call.2.run env call.1 w = (.ok true, w')) :
    Call.Accepted env call w ∧ Call.next env w call = w' := by
  unfold Call.Accepted Call.succeeded Call.next
  rw [ran]
  exact ⟨rfl, rfl⟩

theorem storeMemory_stored {request : StoreRequest} {p : StoreProposal} {id : EntityId} {state : CoreState}
    {w w' : World Db Supply} (prepared : (preparedStore env request w).toOption = some p)
    (target : p.resolvedEntityId = some id)
    (resolved : (resolveRawCoreState env w.durable (reading env (tick (draw w))) p id).toOption = some state)
    (persisted : (persistRawEntity env p id (reading env (tick (draw w))) state (w.durable.entities.find id)).run
      (tick (tick (draw w))) = (.ok (), w')) :
    (Call.storeMemory request).run env .direct w = (.ok true, w') := by
  have prepared := ok_of_toOption prepared
  have resolved := ok_of_toOption resolved
  have stored : (storeRawEntity env p).run (tick (draw w)) = (.ok (id, (w.durable.entities.find id).isSome), w') := by
    unfold storeRawEntity storeTargetId
    rw [target]
    dsimp only
    rw [Txn.bind_run_ok (Txn.run_pure _ _), Tx.run_now_bind, Tx.run_db_bind]
    dsimp only [tick_durable, draw_durable]
    rw [resolved, Txn.bind_run_ok (Txn.run_ofExcept _ _), Txn.bind_run_ok persisted]
    rfl
  have written : (writeTransactionRetrying .direct (storeRawEntity env p)).run (tick (draw w)) =
      (.ok (id, (w.durable.entities.find id).isSome), w') := retrying_ok.mpr stored
  have answered : (storeMemory env .direct request).run w =
      (.ok (storedAnswer p (id, (w.durable.entities.find id).isSome)), w') := by
    unfold storeMemory
    rw [Tx.run_db_bind, Tx.run_uuid4_bind, Tx.run_now_bind]
    unfold preparedStore at prepared
    rw [prepared]
    dsimp only
    rw [Txn.run_tryCatch, Txn.bind_run_ok written]
    rfl
  exact Txn.bind_run_ok answered

/-- What a decision about a core is going to write. -/
def SetCoreDecision.writes : SetCoreDecision → Option (Entity × CoreState)
  | .refuse _ => none
  | .unchanged _ _ => none
  | .write row state => some (row, state)

theorem setCoreMemory_written {request : SetCoreRequest} {row : Entity} {state : CoreState} {w w' : World Db Supply}
    {answer : Envelope CoreReceipt} (valid : validateSetCore request = .ok ())
    (decided : (setCoreDecision env w.durable (reading env w) request).writes = some (row, state))
    (written : (setCoreWrite env row state request.agentId).run (tick w) = (.ok answer, w')) (ok : answer.isOk = true) :
    (Call.setCoreMemory request).run env .direct w = (.ok true, w') := by
  have transaction : (setCoreTransaction env request).run w = (.ok answer, w') := by
    unfold setCoreTransaction
    rw [Tx.run_db_bind, Tx.run_now_bind]
    cases decision : setCoreDecision env w.durable (reading env w) request with
    | refuse e => simp [decision, SetCoreDecision.writes] at decided
    | unchanged id state => simp [decision, SetCoreDecision.writes] at decided
    | write found settled =>
      rw [decision] at decided
      obtain ⟨rfl, rfl⟩ := Prod.mk.inj (Option.some.inj decided)
      exact written
  have ran : (setCoreMemory env .direct request).run w = (.ok answer, w') := by
    unfold setCoreMemory
    rw [valid]
    exact retrying_ok.mpr transaction
  refine (Txn.bind_run_ok ran).trans ?_
  rw [ok]
  rfl

/-! ### A declared detail that is promoted -/

/-- The digits of a date of the plain environment. -/
def readDigits (s : String) : Option Instant :=
  if s.toList.all (·.isDigit) then some (s.toList.foldl (fun n c => 10 * n + (c.toNat - 48 : Nat)) 0) else none

/-- The plain environment with dates that are read as they are written. -/
def Env.dated : Env := { Env.plain with parseIsoUtc := readDigits }

def declaredDetail : EntityId := "00000000-0000-4000-8000-000000000009"

def guideContent : String := "See Detail 00000000-0000-4000-8000-000000000009"

def coreReason : String := "steers every later step"

def coreExit : String := "until the guide is done"

def detailNote : StoreRequest := noteRequest declaredDetail "Detail" "the long story" undeclared

def guideCore : StoreRequest :=
  noteRequest "guide" "Guide" guideContent ⟨some true, some coreReason, some coreExit, none, some [declaredDetail]⟩

def promoteDetail : SetCoreRequest := ⟨declaredDetail, some "agent", some coreReason, some coreExit, none⟩

def declaredCalls : List (Mode × Call) :=
  [(.direct, .storeMemory detailNote), (.direct, .storeMemory guideCore)]

def noteProposal (id : EntityId) (title content : String) (core : CoreDeclaration) : StoreProposal where
  resolvedEntityId := some id
  redactedContent := content
  title := title
  tags := none
  agentId := some "agent"
  scope := .shared
  memoryType := some .fact
  contextId := none
  core := core
  metadata := none
  contentHash := content
  retrievalText := none
  skipScdHistory := false

def detailRow : Entity :=
  { memoryRow declaredDetail "Detail" "the long story" with createdAt := 1767225601000000, updatedAt := 1767225601000000 }

def guideRow : Entity :=
  { memoryRow "guide" "Guide" guideContent with
    createdAt := 1767225603000000
    updatedAt := 1767225603000000
    isCore := true
    coreReason := some coreReason
    coreExitCondition := some coreExit
    coreReviewAfter := some "00001768435203000000"
    coreDetailMemoryIds := [declaredDetail] }

def coreTags (links : List (EntityId × TagId)) : TagTable where
  tags := TagTable.seed.tags ++ [⟨3, "#core", some "core", none⟩]
  next := 4
  links := links
  below := by decide
  distinct := by decide
  names := by decide

def queuedJobs (id : EntityId) (entity chunk : String) : List EmbeddingJob :=
  [⟨id, .entity, entity, .queued⟩, ⟨id, .chunk, chunk, .queued⟩]

def detailStored : World Db Supply :=
  ⟨{ Db.init with
      entities := ⟨[detailRow], by decide⟩
      tags := coreTags []
      embeddingJobs := queuedJobs declaredDetail "Detailthe long story" "the long story" }, ⟨2, 1⟩⟩

def guideStored : World Db Supply :=
  ⟨{ Db.init with
      entities := ⟨[detailRow, guideRow], by decide⟩
      relations := RelationTable.empty.push
        ⟨declaredDetail, "guide", "elaborates_on", 1767225604000000, some 1767225604000000, some 1767225604000000⟩ (by decide)
      tags := coreTags [("guide", 3)]
      embeddingJobs := queuedJobs declaredDetail "Detailthe long story" "the long story" ++
        queuedJobs "guide" ("Guide" ++ guideContent) guideContent }, ⟨5, 2⟩⟩

instance : DecidableEq (World Db Supply) := fun a b =>
  decidable_of_iff (a.durable = b.durable ∧ a.transient = b.transient) (by cases a; cases b; simp)

theorem run_unit {m : Tx Unit} {w w' : World Db Supply} (h : (m.run w).1.toOption = some () ∧ (m.run w).2 = w') :
    m.run w = (.ok (), w') :=
  Prod.ext (ok_of_toOption h.1) h.2

theorem detailNote_stored : (Call.storeMemory detailNote).run .dated .direct freshWorld = (.ok true, detailStored) := by
  have prepared : (preparedStore .dated detailNote freshWorld).toOption =
      some (noteProposal declaredDetail "Detail" "the long story" undeclared) := by decide
  have resolved : (resolveRawCoreState .dated Db.init 1767225601000000
      (noteProposal declaredDetail "Detail" "the long story" undeclared) declaredDetail).toOption =
        some (nonCoreState []) := by decide
  exact storeMemory_stored prepared rfl resolved (run_unit (by decide))

def guideState : CoreState :=
  ⟨true, true, false, some coreReason, some coreExit, some "00001768435203000000", [declaredDetail], []⟩

/-- Storing the guide: what it proposes, the core state it settles and the rows it leaves. -/
theorem guideCore_steps :
    (preparedStore .dated guideCore detailStored).toOption =
      some (noteProposal "guide" "Guide" guideContent guideCore.core) ∧
    (resolveRawCoreState .dated detailStored.durable 1767225603000000
      (noteProposal "guide" "Guide" guideContent guideCore.core) "guide").toOption = some guideState ∧
    ((persistRawEntity .dated (noteProposal "guide" "Guide" guideContent guideCore.core) "guide" 1767225603000000
      guideState none).run (tick (tick (draw detailStored)))).1.toOption = some () ∧
    ((persistRawEntity .dated (noteProposal "guide" "Guide" guideContent guideCore.core) "guide" 1767225603000000
      guideState none).run (tick (tick (draw detailStored)))).2 = guideStored := by
  simp only [preparedStore, prepareStore, resolveRawCoreState, checkCapacityAdmission, renderPessimistic_length]
  decide +kernel

theorem guideCore_stored : (Call.storeMemory guideCore).run .dated .direct detailStored = (.ok true, guideStored) := by
  obtain ⟨prepared, resolved, persisted⟩ := guideCore_steps
  exact storeMemory_stored prepared rfl resolved (run_unit persisted)

def promotedState : CoreState :=
  ⟨true, true, false, some coreReason, some coreExit, some "00001768435205000000", [], []⟩

/-- What the promotion leaves of the guide's declared detail. -/
def promotes (ran : Except Exc (Envelope CoreReceipt) × World Db Supply) : Bool :=
  (ran.1.toOption.map (·.isOk)).getD false &&
    ran.2.durable.entities.rows.any (fun e => e.id == declaredDetail && e.isCore) &&
    ran.2.durable.entities.rows.any (fun e => e.activeCore && e.coreDetailMemoryIds.contains declaredDetail)

theorem declaredCalls_guarded {guard : Mode × Call → World Db Supply → Prop} {rest : List (Mode × Call)}
    (first : guard (.direct, .storeMemory detailNote) freshWorld) (second : guard (.direct, .storeMemory guideCore) detailStored)
    (later : Call.Guarded .dated guard rest guideStored) : Call.Guarded .dated guard (declaredCalls ++ rest) freshWorld := by
  have one : Call.next .dated freshWorld (.direct, .storeMemory detailNote) = detailStored :=
    (accepted_next detailNote_stored).2
  have two : Call.next .dated detailStored (.direct, .storeMemory guideCore) = guideStored :=
    (accepted_next guideCore_stored).2
  refine ⟨first, ?_⟩
  rw [one]
  refine ⟨second, ?_⟩
  rw [two]
  exact later

theorem declaredCalls_reaches {rest : List (Mode × Call)} {w : World Db Supply}
    (later : w ∈ Call.states .dated rest guideStored) : w ∈ Call.states .dated (declaredCalls ++ rest) freshWorld := by
  have one : Call.next .dated freshWorld (.direct, .storeMemory detailNote) = detailStored :=
    (accepted_next detailNote_stored).2
  have two : Call.next .dated detailStored (.direct, .storeMemory guideCore) = guideStored :=
    (accepted_next guideCore_stored).2
  refine List.mem_cons_of_mem _ ?_
  rw [one]
  refine List.mem_cons_of_mem _ ?_
  rw [two]
  exact later

theorem declaredCalls_accepted {rest : List (Mode × Call)}
    (later : Call.Guarded .dated (Call.Accepted .dated) rest guideStored) :
    Call.Guarded .dated (Call.Accepted .dated) (declaredCalls ++ rest) freshWorld :=
  declaredCalls_guarded (accepted_next detailNote_stored).1 (accepted_next guideCore_stored).1 later

theorem declaredCalls_unused {rest : List (Mode × Call)}
    (later : Call.Guarded .dated (Call.DrawsUnused .dated) rest guideStored) :
    Call.Guarded .dated (Call.DrawsUnused .dated) (declaredCalls ++ rest) freshWorld := by
  have first : freshWorld.durable.entities.find (Env.dated.uuid4 1) = none := rfl
  have second : detailStored.durable.entities.find (Env.dated.uuid4 2) = none := rfl
  exact declaredCalls_guarded first second later

theorem declaredCalls_detailsHold : Call.Guarded .dated (Call.Accepted .dated) declaredCalls ⟨.init, ⟨0, 0⟩⟩ ∧
    Call.Guarded .dated (Call.DrawsUnused .dated) declaredCalls ⟨.init, ⟨0, 0⟩⟩ ∧
    Call.Guarded .dated (Call.SparesDetails .dated) declaredCalls ⟨.init, ⟨0, 0⟩⟩ ∧
    ∀ w ∈ Call.states .dated declaredCalls ⟨.init, ⟨0, 0⟩⟩, w.durable.DetailsHold .dated := by
  have accepted : Call.Guarded .dated (Call.Accepted .dated) (declaredCalls ++ []) freshWorld :=
    declaredCalls_accepted trivial
  have unused : Call.Guarded .dated (Call.DrawsUnused .dated) (declaredCalls ++ []) freshWorld :=
    declaredCalls_unused trivial
  have spares : Call.Guarded .dated (Call.SparesDetails .dated) (declaredCalls ++ []) freshWorld := by
    refine declaredCalls_guarded ?_ ?_ trivial
    · intro p _ row found
      obtain ⟨id, _, here⟩ := Option.bind_eq_some_iff.mp found
      simp [freshWorld, Db.init, EntityTable.find, EntityTable.empty] at here
    · intro p prepared row found
      have known := guideCore_steps.1
      rw [prepared] at known
      obtain rfl := Option.some.inj known
      have missing : detailStored.durable.entities.find "guide" = none := rfl
      have here : detailStored.durable.entities.find "guide" = some row := found
      rw [missing] at here
      simp at here
  exact ⟨accepted, unused, spares, states_detailsHold .dated declaredCalls ⟨0, 0⟩ accepted unused spares⟩

theorem detail_promotes :
    (setCoreDecision .dated guideStored.durable 1767225605000000 promoteDetail).writes = some (detailRow, promotedState) ∧
      promotes ((setCoreWrite .dated detailRow promotedState promoteDetail.agentId).run (tick guideStored)) = true := by
  simp only [setCoreDecision, setCoreAdmission, checkCapacityAdmission, renderPessimistic_length]
  decide +kernel

theorem promotedDetail_broken : ¬ ∀ (calls : List (Mode × Call)) (supply : Supply),
    Call.Guarded .dated (Call.Accepted .dated) calls ⟨.init, supply⟩ →
    Call.Guarded .dated (Call.DrawsUnused .dated) calls ⟨.init, supply⟩ →
    ∀ w ∈ Call.states .dated calls ⟨.init, supply⟩, w.durable.DetailsHold .dated := by
  intro always
  obtain ⟨decided, written⟩ := detail_promotes
  cases ran : (setCoreWrite .dated detailRow promotedState promoteDetail.agentId).run (tick guideStored) with
  | mk result w' =>
    rw [ran] at written
    simp only [promotes, Bool.and_eq_true] at written
    obtain ⟨⟨ok, promoted⟩, declared⟩ := written
    cases result with
    | error e => exact absurd ok Bool.false_ne_true
    | ok answer =>
      have stepped : (Call.setCoreMemory promoteDetail).run .dated .direct guideStored = (.ok true, w') :=
        setCoreMemory_written (by decide) decided ran ok
      have last : Call.Accepted .dated (.direct, .setCoreMemory promoteDetail) guideStored ∧
          Call.next .dated guideStored (.direct, .setCoreMemory promoteDetail) = w' := accepted_next stepped
      have reached : w' ∈ Call.states .dated [(.direct, .setCoreMemory promoteDetail)] guideStored := by
        refine List.mem_cons_of_mem _ ?_
        rw [last.2]
        exact List.mem_singleton_self w'
      have accepted : Call.Guarded .dated (Call.Accepted .dated)
          (declaredCalls ++ [(.direct, .setCoreMemory promoteDetail)]) freshWorld :=
        declaredCalls_accepted ⟨last.1, trivial⟩
      have unused : Call.Guarded .dated (Call.DrawsUnused .dated)
          (declaredCalls ++ [(.direct, .setCoreMemory promoteDetail)]) freshWorld :=
        declaredCalls_unused ⟨trivial, trivial⟩
      have holds := always _ ⟨0, 0⟩ accepted unused w' (declaredCalls_reaches reached)
      obtain ⟨detail, here, detailFacts⟩ := List.any_eq_true.mp promoted
      obtain ⟨guide, member, guideFacts⟩ := List.any_eq_true.mp declared
      simp only [Bool.and_eq_true, beq_iff_eq, List.contains_iff_mem] at detailFacts guideFacts
      obtain ⟨m, found, _, plain, _⟩ := holds.declared guide member guideFacts.1 declaredDetail guideFacts.2
      obtain ⟨there, same⟩ := EntityTable.find_some found
      rw [EntityTable.id_unique there here (same.trans detailFacts.1.symm), detailFacts.2] at plain
      simp at plain

end SaltMdb
