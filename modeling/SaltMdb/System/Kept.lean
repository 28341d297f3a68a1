import SaltMdb.Memory.Effects
import SaltMdb.Relation.Growth
import SaltMdb.System.Calls

/-! Relations between databases that every call keeps. Each service is taken apart once, for any relation that
its writes keep; archivals and invalidations may be kept under a guard only. -/

namespace SaltMdb
open Transactions

/-- An update that leaves the status or archives. -/
def Retires (f : EntityColumns → EntityColumns) : Prop := ∀ c, (f c).status = c.status ∨ (f c).status = .archived

/-! ### What a call archives and invalidates -/

def ArchiveDecision.archives : ArchiveDecision → Option EntityId
  | .archive id => some id
  | .refuse _ => none
  | .alreadyArchived _ => none

def ArchiveRequest.archives (env : Env) (db : Db) : ArchiveRequest → Option EntityId
  | .text id => (archiveDecision env db (some id) none).archives
  | .object id owner => (archiveDecision env db id owner).archives
  | .other => none

/-- Each request of a legacy batch in its turn: an archived title lets the next memory of that title through. -/
def ArchivesSpared (env : Env) (spares : Db → EntityId → Prop) : List ArchiveRequest → World Db Supply → Prop
  | [], _ => True
  | request :: rest, w =>
    (∀ id ∈ request.archives env w.durable, spares w.durable id) ∧
      ArchivesSpared env spares rest ((archiveRequest env request).run w).2

def reviewArchives (env : Env) (db : Db) (request : ReviewRequest) : Option EntityId :=
  match prepareReview env db request with
  | .ok (id, .archive, _) => ((db.entities.find id).filter (·.activeCore)).map (·.id)
  | _ => none

def InvalidationsNamed (names : Db → InvalidateRelationArgs → Prop) (db : Db) (default : Bool)
    (relations : List (Option RelationItem)) : Prop :=
  ∀ item, some item ∈ relations → item.action default = .invalidate → names db item.invalidateArgs

/-- What a call archives is spared, and what it invalidates may be. -/
def Call.Allowed (env : Env) (spares : Db → EntityId → Prop) (names : Db → InvalidateRelationArgs → Prop)
    (call : Call) (w : World Db Supply) : Prop :=
  match call with
  | .archiveMemory entityId agentId =>
    ∀ id ∈ (archiveDecision env w.durable entityId agentId).archives, spares w.durable id
  | .archiveMemories requests agentId =>
    ∀ request ∈ requests, ∀ id, resolveArchiveTarget w.durable request agentId = .ok ⟨id, false⟩ → spares w.durable id
  | .bulkArchiveMemory requests => ArchivesSpared env spares requests w
  | .reviewCoreMemory request => ∀ id ∈ reviewArchives env w.durable request, spares w.durable id
  | .invalidateRelation args => names w.durable args
  | .applyRelations relations _ => InvalidationsNamed names w.durable false relations
  | .bulkStoreRelations relations _ invalidate => InvalidationsNamed names w.durable invalidate relations
  | _ => True

/-- An update by which no row comes back, becomes core or changes what the declarations of others rest on. -/
structure Mild (f : EntityColumns → EntityColumns) : Prop where
  retires : Retires f
  title : ∀ c, (f c).title = c.title
  scope : ∀ c, (f c).scope = c.scope
  fullContent : ∀ c, (f c).fullContent = c.fullContent
  isCore : ∀ c, (f c).isCore = true → c.isCore = true
  details : ∀ c, (f c).coreDetailMemoryIds = c.coreDetailMemoryIds

/-- An update of columns that no declaration rests on. -/
theorem Mild.of_same {f : EntityColumns → EntityColumns}
    (same : ∀ c, (f c).status = c.status ∧ (f c).title = c.title ∧ (f c).scope = c.scope ∧
      (f c).fullContent = c.fullContent ∧ (f c).isCore = c.isCore ∧ (f c).coreDetailMemoryIds = c.coreDetailMemoryIds) :
    Mild f where
  retires := fun c => Or.inl (same c).1
  title := fun c => (same c).2.1
  scope := fun c => (same c).2.2.1
  fullContent := fun c => (same c).2.2.2.1
  isCore := fun c => (same c).2.2.2.2.1 ▸ id
  details := fun c => (same c).2.2.2.2.2

theorem mild_archive (now : Instant) : Mild (·.archive now) :=
  ⟨fun _ => Or.inr rfl, fun _ => rfl, fun _ => rfl, fun _ => rfl, fun _ h => h, fun _ => rfl⟩

/-- `R` is kept by every write to other tables than that of the memories, and by an archival: one where `spares` holds of
it, an invalidation where `names` does. -/
structure Carries (env : Env) (R : Db → Db → Prop) (spares : Db → EntityId → Prop)
    (names : Db → InvalidateRelationArgs → Prop) : Prop where
  refl : ∀ d, R d d
  trans : ∀ a b c, R a b → R b c → R a c
  silent : ∀ {d d'}, d'.entities = d.entities → d'.relations = d.relations → R d d'
  store : ∀ {args now d r d'}, StoreCall env args now d r d' → R d d'
  invalidate : ∀ {args d r d'}, names d args → InvalidateCall env args d r d' → R d d'
  archive : ∀ {d id} now, spares d id → R d (d.archive id now)
  names_detail : ∀ {d args}, args.predicate = "elaborates_on" → names d args
  names_moved : ∀ {d d' args}, names d args → d.OnlyRelations Edge.Selectable d' → names d' args
  spares_archive : ∀ {d id} now other, spares d id → spares (d.archive other now) id
  spares_silent : ∀ {d d' id}, spares d id → d'.relations = d.relations → spares d' id

/-- `R` is kept by every write that brings no memory in and rewrites none. -/
structure Steady (env : Env) (R : Db → Db → Prop) (spares : Db → EntityId → Prop)
    (names : Db → InvalidateRelationArgs → Prop) : Prop extends Carries env R spares names where
  settle : ∀ d sel {f}, Mild f → R d { d with entities := d.entities.updateWhere sel f }

/-- `R` is kept by every write there is. -/
structure Kept (env : Env) (R : Db → Db → Prop) (spares : Db → EntityId → Prop)
    (names : Db → InvalidateRelationArgs → Prop) : Prop extends Steady env R spares names where
  arrive : ∀ d e free, R d { d with entities := d.entities.append e free }
  update : ∀ d sel {f}, Retires f → R d { d with entities := d.entities.updateWhere sel f }
  settle := fun d sel _ mild => update d sel mild.retires

/-- The services that record lineage, whose parts need more than the writes above. -/
structure Kept.Recording (env : Env) (R : Db → Db → Prop) : Prop where
  replace : ∀ mode operation request, Txn.Within R (SaltMdb.replaceMemory env mode operation request)
  consolidate : ∀ mode request, Txn.Within R (SaltMdb.consolidateMemories env mode request)
  applyConsolidations : ∀ mode items agentId contextId,
    Txn.Within R (SaltMdb.applyConsolidations env mode items agentId contextId)
  bulkCommit : ∀ mode items agentId contextId,
    Txn.Within R (SaltMdb.bulkCommitConsolidation env mode items agentId contextId)

namespace Steady

/-- What a replacement moves by once its body does. -/
def Replaced (env : Env) (R : Db → Db → Prop) : Prop :=
  ∀ (operation : Operation) (plan : ReplacementPlan) (repoint : Bool) (n : EntityId) (now : Instant) (state : CoreState)
    (w w' : World Db Supply) (receipt : ReplacementReceipt), replacementLockedSource w.durable plan = .ok () →
    resolveDerivedCoreState env w.durable now [plan.resolvedId] plan.core plan.newContent plan.scope (plan.entry n) = .ok state →
    (replacementBody env operation plan repoint n state).run w = (.ok receipt, w') → R w.durable w'.durable

/-- What a merge moves by once its commit does. -/
def Committed (env : Env) (R : Db → Db → Prop) : Prop :=
  ∀ (bulk : Option BulkContext) (request : ConsolidationRequest) (plan : ConsolidationPlan) (n : EntityId) (now : Instant)
    (w w' : World Db Supply) (orphaned : List Edge), consolidationPlan env w.durable bulk request = .ok plan →
    (consolidationCommit env request plan n now).run w = (.ok orphaned, w') → R w.durable w'.durable

end Steady

namespace Carries

variable {env : Env} {R : Db → Db → Prop} {spares : Db → EntityId → Prop} {names : Db → InvalidateRelationArgs → Prop}
  {α β : Type} {m : Tx α} {f : α → Tx β}

/-! ### Composition -/

theorem bind (carries : Carries env R spares names) (first : Txn.Within R m) (rest : ∀ a, Txn.Within R (f a)) :
    Txn.Within R (m >>= f) :=
  Txn.within_bind carries.trans first rest

theorem pure (carries : Carries env R spares names) (a : α) : Txn.Within R (Pure.pure a : Tx α) :=
  Txn.within_pure carries.refl a

theorem throw (carries : Carries env R spares names) (e : Exc) : Txn.Within R (MonadExcept.throw e : Tx α) :=
  Txn.within_throw carries.refl e

theorem advance (carries : Carries env R spares names) (g : Supply → α × Supply) : Txn.Within R (Txn.advance g : Tx α) :=
  Txn.within_advance carries.refl g

theorem db (carries : Carries env R spares names) : Txn.Within R Tx.db := Txn.within_read carries.refl

theorem ofExcept (carries : Carries env R spares names) (r : Except Exc α) : Txn.Within R (Txn.ofExcept r : Tx α) :=
  Txn.within_ofExcept carries.refl r

theorem when_ (carries : Carries env R spares names) {condition : Bool} {body : Tx Unit} (h : Txn.Within R body) :
    Txn.Within R (Tx.when_ condition body) :=
  within_when carries.refl h

theorem tryCatch (carries : Carries env R spares names) {handler : Exc → Tx α} (body : Txn.Within R m)
    (handled : ∀ e, Txn.Within R (handler e)) : Txn.Within R (MonadExcept.tryCatch m handler) :=
  Txn.within_tryCatch carries.trans body handled

theorem forEach (carries : Carries env R spares names) {g : β → Tx Unit} (each : ∀ x, Txn.Within R (g x)) (xs : List β) :
    Txn.Within R (Txn.forEach g xs) :=
  Txn.within_forEach carries.refl carries.trans each xs

theorem retrying (carries : Carries env R spares names) (h : Txn.Within R m) (mode : Mode) :
    Txn.Within R (writeTransactionRetrying mode m) :=
  within_writeTransactionRetrying carries.refl h mode

/-- A transaction whose result is wrapped and whose exceptions are answered, at one world. -/
theorem answered (carries : Carries env R spares names) {fn : Tx α} {wrap : α → Tx β} {handler : Exc → Tx β} (mode : Mode)
    {w : World Db Supply} (moves : R w.durable (fn.run w).2.durable) (wrapped : ∀ a, Txn.Within R (wrap a))
    (handled : ∀ e, Txn.Within R (handler e)) :
    R w.durable ((MonadExcept.tryCatch (writeTransactionRetrying mode fn >>= wrap) handler).run w).2.durable := by
  refine Txn.within_tryCatch_at carries.trans (Txn.within_bind_at carries.trans ?_ wrapped) handled
  cases mode with
  | direct => exact Txn.within_atomic_at carries.refl moves
  | coordinator => exact moves

/-! ### Parts of the services -/

theorem tags (carries : Carries env R spares names) (h : Txn.Settles Db.OnlyTags m) : Txn.Within R m :=
  fun w => carries.silent (h.within w).entities (h.within w).relations

theorem jobs (carries : Carries env R spares names) (h : Txn.Settles Db.OnlyJobs m) : Txn.Within R m :=
  fun w => carries.silent (h.within w).entities (h.within w).relations

theorem storeDetailRelation (carries : Carries env R spares names) (coreId : EntityId) (agentId : Option String)
    (detailId : EntityId) : Txn.Within R (storeDetailRelation env coreId agentId detailId) := by
  intro w
  rcases storeDetailRelation_cases env coreId agentId detailId w with
    ⟨receipt, warnings, w', ran, call⟩ | ⟨message, w', ran, same⟩
  · rw [ran]
    exact carries.store call
  · rw [ran, same]
    exact carries.refl _

theorem dropDetailRelation (carries : Carries env R spares names) (coreId detailId : EntityId) :
    Txn.Within R (dropDetailRelation env coreId detailId) := by
  refine carries.bind (fun w => ?_) fun _ => carries.pure _
  obtain ⟨r, w', ran, call⟩ := invalidateRelationIn_cases env ⟨detailId, coreId, "elaborates_on", none⟩ w
  rw [ran]
  exact carries.invalidate (carries.names_detail rfl) call

theorem reconcile (carries : Carries env R spares names) (coreId : EntityId) (agentId : Option String)
    (new previous : List EntityId) : Txn.Within R (reconcileDetailRelations env coreId agentId new previous) :=
  carries.bind (carries.forEach (carries.storeDetailRelation coreId agentId) new) fun _ =>
    carries.forEach (carries.dropDetailRelation coreId) _

/-! ### Archivals -/

theorem archiveEntityUnchecked (carries : Carries env R spares names) {id : EntityId} {w : World Db Supply}
    (spared : spares w.durable id) : R w.durable ((archiveEntityUnchecked env id).run w).2.durable := by
  obtain ⟨w', ran, jobs⟩ := archiveEntityUnchecked_run env id w
  rw [ran]
  exact carries.trans _ _ _ (carries.archive _ spared) (carries.silent jobs.entities jobs.relations)

/-- Archivals one after the other, each spared in the database the first starts from. -/
theorem archiveEach (carries : Carries env R spares names) {ids : List EntityId} {w : World Db Supply}
    (spared : ∀ id ∈ ids, spares w.durable id) :
    R w.durable ((Txn.forEach (SaltMdb.archiveEntityUnchecked env) ids).run w).2.durable := by
  induction ids generalizing w with
  | nil => exact carries.refl _
  | cons id rest ih =>
    have head := carries.archiveEntityUnchecked (spared id List.mem_cons_self)
    obtain ⟨w', ran, jobs⟩ := archiveEntityUnchecked_run env id w
    rw [ran] at head
    rw [Txn.forEach, Txn.bind_run_ok ran]
    refine carries.trans _ _ _ head (ih fun other member => ?_)
    exact carries.spares_silent (carries.spares_archive _ id (spared other (List.mem_cons_of_mem _ member))) jobs.relations

theorem archiveMemoryIn (carries : Carries env R spares names) {entityId agentId : Option String} {w : World Db Supply}
    (spared : ∀ id ∈ (archiveDecision env w.durable entityId agentId).archives, spares w.durable id) :
    R w.durable ((archiveMemoryIn env entityId agentId).run w).2.durable := by
  unfold SaltMdb.archiveMemoryIn
  rw [Tx.run_db_bind]
  cases decided : archiveDecision env w.durable entityId agentId with
  | refuse error => exact carries.refl _
  | alreadyArchived id => exact carries.refl _
  | archive id =>
    rw [decided] at spared
    exact Txn.within_bind_at carries.trans (carries.archiveEntityUnchecked (spared id rfl)) fun _ => carries.pure _

theorem archiveMemory (carries : Carries env R spares names) (mode : Mode) {entityId agentId : Option String}
    {w : World Db Supply}
    (spared : ∀ id ∈ (archiveDecision env w.durable entityId agentId).archives, spares w.durable id) :
    R w.durable ((archiveMemory env mode entityId agentId).run w).2.durable := by
  unfold SaltMdb.archiveMemory
  rw [Tx.run_db_bind]
  cases decided : archiveDecision env w.durable entityId agentId with
  | refuse error => exact carries.refl _
  | alreadyArchived id => exact carries.refl _
  | archive id =>
    rw [decided] at spared
    exact carries.answered mode (carries.archiveEntityUnchecked (spared id rfl)) (fun _ => carries.pure _) fun _ => carries.pure _

theorem validateArchiveRequests_targets {db : Db} {agentId : Option String} {index : Nat}
    {requests : List (Option String)} {targets : List ArchiveTarget} {errors : List Error} {target : ArchiveTarget}
    (member : target ∈ (validateArchiveRequests db agentId index requests targets errors).1) :
    target ∈ targets ∨ ∃ request ∈ requests, resolveArchiveTarget db request agentId = .ok target := by
  induction requests generalizing index targets errors with
  | nil => exact Or.inl member
  | cons request rest ih =>
    unfold validateArchiveRequests at member
    have later : ∀ {targets errors}, target ∈ (validateArchiveRequests db agentId (index + 1) rest targets errors).1 →
        target ∈ targets ∨ ∃ request' ∈ request :: rest, resolveArchiveTarget db request' agentId = .ok target := by
      intro targets errors member
      rcases ih member with old | ⟨request', listed, resolved⟩
      · exact Or.inl old
      · exact Or.inr ⟨request', List.mem_cons_of_mem _ listed, resolved⟩
    split at member
    · exact later member
    · rename_i found resolved
      split at member
      · exact later member
      · rcases later member with old | new
        · rcases List.mem_append.mp old with known | this
          · exact Or.inl known
          · obtain rfl := List.mem_singleton.mp this
            exact Or.inr ⟨request, List.mem_cons_self, resolved⟩
        · exact Or.inr new

theorem archiveBatchTransaction (carries : Carries env R spares names) {requests : List (Option String)}
    {agentId : Option String} {w : World Db Supply}
    (spared : ∀ request ∈ requests, ∀ id, resolveArchiveTarget w.durable request agentId = .ok ⟨id, false⟩ →
      spares w.durable id) :
    R w.durable ((archiveBatchTransaction env requests agentId).run w).2.durable := by
  unfold SaltMdb.archiveBatchTransaction
  rw [Tx.run_db_bind]
  dsimp only
  split
  · refine Txn.within_bind_at carries.trans (carries.archiveEach fun id member => ?_) fun _ => carries.pure _
    obtain ⟨target, listed, rfl⟩ := List.mem_map.mp member
    obtain ⟨listed, pending⟩ := List.mem_filter.mp listed
    rcases validateArchiveRequests_targets listed with none_ | ⟨request, member, resolved⟩
    · simp at none_
    · refine spared request member target.memoryId ?_
      have live : target.alreadyArchived = false := by simpa using pending
      rw [resolved, ← live]
  · exact carries.refl _

theorem archiveMemories (carries : Carries env R spares names) (mode : Mode) {requests : List (Option String)}
    {agentId : Option String} {w : World Db Supply}
    (spared : ∀ request ∈ requests, ∀ id, resolveArchiveTarget w.durable request agentId = .ok ⟨id, false⟩ →
      spares w.durable id) :
    R w.durable ((archiveMemories env mode requests agentId).run w).2.durable := by
  unfold SaltMdb.archiveMemories
  split
  · exact carries.refl _
  · refine Txn.within_tryCatch_at carries.trans ?_ fun e => ?_
    · have batch := carries.archiveBatchTransaction spared
      cases mode with
      | direct => exact Txn.within_atomic_at carries.refl batch
      | coordinator => exact batch
    · cases mode with
      | direct => exact carries.pure _
      | coordinator => exact carries.throw e

theorem archiveRequest (carries : Carries env R spares names) {request : ArchiveRequest} {w : World Db Supply}
    (spared : ∀ id ∈ request.archives env w.durable, spares w.durable id) :
    R w.durable ((archiveRequest env request).run w).2.durable := by
  cases request with
  | text id => exact carries.archiveMemoryIn spared
  | object id owner => exact carries.archiveMemoryIn spared
  | other => exact carries.refl _

/-- What an item of the legacy batch adds to the archival is an exception, and no write. -/
theorem archiveBatchItem_world (request : ArchiveRequest) (w : World Db Supply) :
    ((archiveBatchItem env request).run w).2 = ((SaltMdb.archiveRequest env request).run w).2 := by
  unfold archiveBatchItem
  rw [Txn.run_bind]
  split
  · rename_i answer v ran
    rw [ran]
    cases answer <;> rfl
  · rename_i ran
    rw [ran]

theorem archiveBatchItems (carries : Carries env R spares names) {requests : List ArchiveRequest} {w : World Db Supply}
    (spared : ArchivesSpared env spares requests w) :
    R w.durable ((Txn.mapList (archiveBatchItem env) requests).run w).2.durable := by
  induction requests generalizing w with
  | nil => exact carries.refl _
  | cons request rest ih =>
    obtain ⟨here, later⟩ := spared
    have head := carries.archiveRequest here
    rw [← archiveBatchItem_world] at head later
    rw [Txn.mapList, Txn.run_bind]
    split
    · rename_i receipt v ran
      rw [ran] at head later
      exact carries.trans _ _ _ head (Txn.within_bind_at carries.trans (ih later) fun _ => carries.pure _)
    · rename_i ran
      rw [ran] at head
      exact head

theorem bulkArchiveMemory (carries : Carries env R spares names) (mode : Mode) {requests : List ArchiveRequest}
    {w : World Db Supply} (spared : ArchivesSpared env spares requests w) :
    R w.durable ((bulkArchiveMemory env mode requests).run w).2.durable := by
  unfold SaltMdb.bulkArchiveMemory
  split
  · exact carries.refl _
  · exact carries.answered mode (carries.archiveBatchItems spared) (fun _ => carries.pure _) fun _ => carries.pure _

/-! ### Relations -/

theorem storeRelationIn (carries : Carries env R spares names) (args : StoreRelationArgs) :
    Txn.Within R (storeRelationIn env args) := by
  intro w
  obtain ⟨r, w', ran, call⟩ := storeRelationIn_cases env args w
  rw [ran]
  exact carries.store call

theorem invalidateRelationIn (carries : Carries env R spares names) {args : InvalidateRelationArgs} {w : World Db Supply}
    (named : names w.durable args) : R w.durable ((invalidateRelationIn env args).run w).2.durable := by
  obtain ⟨r, w', ran, call⟩ := invalidateRelationIn_cases env args w
  rw [ran]
  exact carries.invalidate named call

theorem runRelationItem (carries : Carries env R spares names) {item : RelationItem} {action : RelationAction}
    (agentId : Option String) {w : World Db Supply} (named : action = .invalidate → names w.durable item.invalidateArgs) :
    R w.durable ((runRelationItem env item action agentId).run w).2.durable := by
  cases action with
  | store => exact carries.storeRelationIn _ w
  | invalidate => exact carries.invalidateRelationIn (named rfl)

theorem invalidationsNamed_moved (carries : Carries env R spares names) {d d' : Db} {default : Bool}
    {relations : List (Option RelationItem)} (h : InvalidationsNamed names d default relations)
    (moved : d.OnlyRelations Edge.Selectable d') : InvalidationsNamed names d' default relations :=
  fun item listed invalidates => carries.names_moved (h item listed invalidates) moved

theorem relationRejection_world (errors : List Error) (w : World Db Supply) : ((relationRejection errors).run w).2 = w := by
  unfold relationRejection
  dsimp only
  split <;> rfl

theorem applyRelationItem_world (item : RelationItem) (agentId : Option String) (w : World Db Supply) :
    ((applyRelationItem env item agentId).run w).2 =
      ((SaltMdb.runRelationItem env item (item.action false) agentId).run w).2 := by
  unfold applyRelationItem
  rw [Txn.run_bind]
  split
  · rename_i answer v ran
    rw [ran]
    cases answer with
    | ok data warnings => rfl
    | rejected errors =>
      dsimp only
      rw [Txn.run_bind]
      have same := relationRejection_world errors v
      split <;> (rename_i raised; rw [raised] at same; exact same)
    | failure text => rfl
  · rename_i ran
    rw [ran]

theorem applyRelationItems (carries : Carries env R spares names) (agentId : Option String) (index : Nat)
    (progress : BatchProgress) {relations : List (Option RelationItem)} {w : World Db Supply}
    (named : InvalidationsNamed names w.durable false relations) :
    R w.durable ((applyRelationItems env agentId index relations progress).run w).2.durable := by
  induction relations generalizing index progress w with
  | nil => exact carries.refl _
  | cons element rest ih =>
    have others : InvalidationsNamed names w.durable false rest :=
      fun item listed => named item (List.mem_cons_of_mem _ listed)
    cases element with
    | none => exact ih _ _ others
    | some item =>
      have head := carries.runRelationItem agentId (named item List.mem_cons_self)
      have moved := applyRelationItem_within env item agentId w
      rw [← applyRelationItem_world] at head
      unfold SaltMdb.applyRelationItems
      rw [Txn.run_bind]
      split
      · rename_i outcome v ran
        rw [ran] at head moved
        have later := carries.invalidationsNamed_moved others moved
        cases outcome with
        | error errors => exact carries.trans _ _ _ head (ih _ _ later)
        | ok outcome => exact carries.trans _ _ _ head (ih _ _ later)
      · rename_i ran
        rw [ran] at head
        exact head

theorem applyRelations (carries : Carries env R spares names) (mode : Mode) {relations : List (Option RelationItem)}
    {agentId : Option String} {w : World Db Supply} (named : InvalidationsNamed names w.durable false relations) :
    R w.durable ((applyRelations env mode relations agentId).run w).2.durable := by
  have transaction : R w.durable ((applyRelationsTransaction env relations agentId).run w).2.durable := by
    have items := carries.applyRelationItems agentId 0 .start named
    unfold applyRelationsTransaction
    rw [Tx.run_db_bind, Txn.run_bind]
    split
    · rename_i progress v ran
      rw [ran] at items
      split
      · exact items
      · exact carries.refl _
    · rename_i ran
      rw [ran] at items
      exact items
  unfold SaltMdb.applyRelations
  split
  · exact carries.refl _
  · refine Txn.within_tryCatch_at carries.trans ?_ fun e => ?_
    · cases mode with
      | direct => exact Txn.within_atomic_at carries.refl transaction
      | coordinator => exact transaction
    · cases mode with
      | direct => exact carries.pure _
      | coordinator => exact carries.throw e

theorem storeRelationBatchItem_world (agentId : Option String) (invalidate : Bool) (item : RelationItem)
    (w : World Db Supply) :
    ((storeRelationBatchItem env agentId invalidate (some item)).run w).2 =
      ((SaltMdb.runRelationItem env item (item.action invalidate) (item.agentId.getD agentId)).run w).2 := by
  simp only [storeRelationBatchItem]
  rw [Txn.run_bind]
  split
  · rename_i answer v ran
    rw [ran]
    cases answer <;> rfl
  · rename_i ran
    rw [ran]

theorem storeRelationBatchItems (carries : Carries env R spares names) {agentId : Option String} {invalidate : Bool}
    {relations : List (Option RelationItem)} {w : World Db Supply}
    (named : InvalidationsNamed names w.durable invalidate relations) :
    R w.durable ((Txn.mapList (storeRelationBatchItem env agentId invalidate) relations).run w).2.durable := by
  induction relations generalizing w with
  | nil => exact carries.refl _
  | cons element rest ih =>
    have others : InvalidationsNamed names w.durable invalidate rest :=
      fun item listed => named item (List.mem_cons_of_mem _ listed)
    have head : R w.durable ((storeRelationBatchItem env agentId invalidate element).run w).2.durable := by
      cases element with
      | none => exact carries.refl _
      | some item =>
        rw [storeRelationBatchItem_world]
        exact carries.runRelationItem _ (named item List.mem_cons_self)
    have moved := storeRelationBatchItem_within env agentId invalidate element w
    rw [Txn.mapList, Txn.run_bind]
    split
    · rename_i outcome v ran
      rw [ran] at head moved
      have later := carries.invalidationsNamed_moved others moved
      exact carries.trans _ _ _ head (Txn.within_bind_at carries.trans (ih later) fun _ => carries.pure _)
    · rename_i ran
      rw [ran] at head
      exact head

theorem bulkStoreRelations (carries : Carries env R spares names) (mode : Mode) {relations : List (Option RelationItem)}
    {agentId : Option String} {invalidate : Bool} {w : World Db Supply}
    (named : InvalidationsNamed names w.durable invalidate relations) :
    R w.durable ((bulkStoreRelations env mode relations agentId invalidate).run w).2.durable := by
  unfold SaltMdb.bulkStoreRelations
  split
  · exact carries.refl _
  · exact carries.answered mode (carries.storeRelationBatchItems named) (fun _ => carries.pure _) fun _ => carries.pure _

/-! ### Tags -/

theorem mergeTags (carries : Carries env R spares names) (mode : Mode) (keepTag : String) (tagsToMerge : List String) :
    Txn.Within R (mergeTags mode keepTag tagsToMerge) := by
  unfold SaltMdb.mergeTags
  refine carries.bind carries.db fun db => ?_
  cases db.tags.resolveId keepTag with
  | none => exact carries.pure _
  | some canonical =>
    exact carries.bind (carries.retrying (carries.tags (mergeTagList_settles canonical tagsToMerge ([], []))) mode)
      fun _ => carries.pure _

/-! ### Refusals -/

theorem replacementFailure (carries : Carries env R spares names) (mode : Mode) (e : Exc) :
    Txn.Within R (replacementFailure mode e : Tx (Envelope α)) := by
  unfold SaltMdb.replacementFailure
  split
  · exact carries.pure _
  · cases mode with
    | coordinator => exact carries.throw e
    | direct => exact carries.pure _

theorem applyConsolidationsFailure (carries : Carries env R spares names) (mode : Mode) (e : Exc) :
    Txn.Within R (applyConsolidationsFailure mode e : Tx (Envelope α)) := by
  unfold SaltMdb.applyConsolidationsFailure
  split
  · exact carries.pure _
  · cases mode with
    | coordinator => exact carries.throw _
    | direct => exact carries.pure _

/-! ### Services that record lineage -/

/-- A savepoint around a body that moves by `R` when it returns. -/
theorem savepoint (carries : Carries env R spares names) {w : World Db Supply}
    (moves : ∀ a w', m.run w = (.ok a, w') → R w.durable w'.durable) : R w.durable ((savepoint m).run w).2.durable := by
  generalize body : (SaltMdb.savepoint m).run w = ran
  obtain ⟨result, v⟩ := ran
  cases result with
  | error e =>
    have restored := (Txn.atomic_error body).1
    dsimp only
    rw [restored]
    exact carries.refl _
  | ok a => exact moves a v (Txn.atomic_ok.mp body)

theorem replacementWrite (carries : Carries env R spares names) (replaced : Steady.Replaced env R) (operation : Operation)
    (plan : ReplacementPlan) (repoint : Bool) : Txn.Within R (replacementWrite env operation plan repoint) := by
  intro w
  unfold SaltMdb.replacementWrite
  rw [Tx.run_db_bind]
  cases locked : replacementLockedSource w.durable plan with
  | error e => exact carries.refl _
  | ok _ =>
    rw [Txn.bind_run_ok (Txn.run_ofExcept _ _), Tx.run_uuid4_bind, Tx.run_now_bind]
    cases resolved : resolveDerivedCoreState env w.durable (reading env (draw w)) [plan.resolvedId] plan.core
        plan.newContent plan.scope (plan.entry (env.uuid4 w.transient.draws)) with
    | error e => exact carries.refl _
    | ok state =>
      rw [Txn.bind_run_ok (Txn.run_ofExcept _ _)]
      refine Txn.within_bind_at (w := tick (draw w)) carries.trans (carries.savepoint fun receipt w' body => ?_)
        fun receipt => carries.bind (carries.jobs (setJobs_settles _)) fun _ => carries.pure receipt
      exact replaced operation plan repoint _ _ state _ w' receipt locked resolved body

theorem replaceMemory (carries : Carries env R spares names) (replaced : Steady.Replaced env R) (mode : Mode)
    (operation : Operation) (request : ReplacementRequest) :
    Txn.Within R (replaceMemory env mode operation request) := by
  unfold SaltMdb.replaceMemory
  refine carries.bind carries.db fun db => carries.bind (carries.advance _) fun now => ?_
  cases prepareReplacement env db now request with
  | error e => exact carries.pure _
  | ok plan =>
    exact carries.tryCatch (carries.bind (carries.retrying (carries.replacementWrite replaced operation plan _) mode)
      fun _ => carries.pure _) (carries.replacementFailure mode)

theorem consolidationCommitSingle (carries : Carries env R spares names) (committed : Steady.Committed env R)
    {request : ConsolidationRequest} {plan : ConsolidationPlan} {n : EntityId} {now : Instant} {w : World Db Supply}
    (planned : consolidationPlan env w.durable none request = .ok plan) :
    R w.durable ((consolidationCommitSingle env request plan n now).run w).2.durable := by
  unfold SaltMdb.consolidationCommitSingle
  refine Txn.within_bind_at carries.trans (carries.savepoint fun orphaned w' ran => ?_) fun orphaned => ?_
  · exact committed none request plan n now w w' orphaned planned ran
  · exact carries.bind (carries.jobs (forEach_onlyJobs (fun id => setJobs_settles _) _)) fun _ => carries.pure orphaned

theorem consolidateMemories (carries : Carries env R spares names) (committed : Steady.Committed env R) (mode : Mode)
    (request : ConsolidationRequest) : Txn.Within R (consolidateMemories env mode request) := by
  intro w
  unfold SaltMdb.consolidateMemories consolidateWith
  rw [Tx.run_db_bind]
  cases planned : consolidationPlan env w.durable none request with
  | error e => exact carries.refl _
  | ok plan =>
    dsimp only
    rw [Tx.run_uuid4_bind, Tx.run_now_bind]
    exact carries.answered (w := tick (draw w)) mode (carries.consolidationCommitSingle committed planned)
      (fun _ => carries.pure _) fun e => carries.pure _

theorem commitBulkConsolidationItem (committed : Steady.Committed env R) {measured : Db} {item : ConsolidationItem}
    {parents : List EntityId} {agentId contextId : Option String} {w w' : World Db Supply}
    {receipt : ConsolidationReceipt} {warnings : List Warning}
    (h : (commitBulkConsolidationItem env measured item parents agentId contextId).run w = (.ok (.ok receipt warnings), w')) :
    R w.durable w'.durable := by
  obtain ⟨plan, orphaned, planned, _, commit⟩ := commitBulkConsolidationItem_ok h
  exact committed _ _ plan _ _ (tick (draw w)) _ orphaned planned commit

theorem writeBulkConsolidationItems (carries : Carries env R spares names) (committed : Steady.Committed env R) {measured : Db}
    {agentId contextId : Option String} {index : Nat} {items : List (ConsolidationItem × List EntityId)}
    {w w' : World Db Supply} {receipts : List ConsolidationReceipt}
    (h : (writeBulkConsolidationItems env measured agentId contextId index items).run w = (.ok receipts, w')) :
    R w.durable w'.durable := by
  induction items generalizing index w receipts with
  | nil =>
    obtain ⟨_, rfl⟩ := Prod.mk.inj h
    exact carries.refl _
  | cons entry rest ih =>
    obtain ⟨item, parents⟩ := entry
    unfold SaltMdb.writeBulkConsolidationItems at h
    obtain ⟨answer, v, first, others⟩ := Txn.bind_ok h
    cases answer with
    | ok receipt warnings =>
      obtain ⟨receipts, u, rest, last⟩ := Txn.bind_ok others
      obtain ⟨_, rfl⟩ := Prod.mk.inj last
      exact carries.trans _ _ _ (commitBulkConsolidationItem committed first) (ih rest)
    | rejected errors => simp at others
    | failure text => simp at others

theorem writeBulkConsolidations (carries : Carries env R spares names) (committed : Steady.Committed env R) (measured : Db)
    (agentId contextId : Option String) (items : List (ConsolidationItem × List EntityId)) :
    Txn.Within R (writeBulkConsolidations env measured agentId contextId items) := by
  unfold SaltMdb.writeBulkConsolidations
  refine carries.bind (fun w => carries.savepoint fun receipts w' ran => ?_) fun receipts => ?_
  · exact carries.writeBulkConsolidationItems committed ran
  · exact carries.bind (carries.jobs (forEach_onlyJobs (fun id => setJobs_settles _) _)) fun _ => carries.pure receipts

/-- The services that record lineage keep what their bodies keep. -/
theorem recording (carries : Carries env R spares names) (replaced : Steady.Replaced env R) (committed : Steady.Committed env R) :
    Kept.Recording env R where
  replace := carries.replaceMemory replaced
  consolidate := carries.consolidateMemories committed
  applyConsolidations := by
    intro mode items agentId contextId
    unfold SaltMdb.applyConsolidations
    refine carries.bind carries.db fun db => ?_
    cases applyConsolidationsPlan env db items with
    | error e => exact carries.pure _
    | ok resolved =>
      refine carries.tryCatch ?_ (carries.applyConsolidationsFailure mode)
      refine carries.bind ?_ fun _ => carries.pure _
      exact carries.retrying (carries.writeBulkConsolidations committed db agentId contextId resolved) mode
  bulkCommit := by
    intro mode items agentId contextId
    unfold SaltMdb.bulkCommitConsolidation
    refine carries.bind carries.db fun db => ?_
    split
    · exact carries.pure _
    · cases items.mapM id with
      | none => exact carries.pure _
      | some items =>
        dsimp only
        cases prepareBulkConsolidationParents env db 0 items with
        | error failed => exact carries.pure _
        | ok resolved =>
          refine carries.tryCatch ?_ fun e => carries.pure _
          refine carries.bind ?_ fun _ => carries.pure _
          exact carries.retrying (carries.writeBulkConsolidations committed db agentId contextId resolved) mode

/-! ### Metadata -/

theorem updateMemoryMetadata (carries : Carries env R spares names)
    (written : ∀ id (patch : MetadataPatch) now, Txn.Within R
      (Tx.setEntities (·.updateId id fun c => { c with metadata := patch.apply c.metadata, updatedAt := now })))
    (mode : Mode) (entityId : Option String) (patch : Option MetadataPatch) (agentId : Option String) :
    Txn.Within R (updateMemoryMetadata env mode entityId patch agentId) := by
  have write : ∀ id patch, Txn.Within R (writeMetadataUpdate env id patch) := by
    intro id patch
    unfold writeMetadataUpdate
    refine carries.bind carries.db fun db => ?_
    cases db.entities.find id with
    | none => exact carries.pure _
    | some e =>
      dsimp only
      split
      · exact carries.pure _
      · exact carries.bind (carries.advance _) fun now => carries.bind (written id patch now) fun _ => carries.pure _
  unfold SaltMdb.updateMemoryMetadata
  refine carries.bind carries.db fun db => ?_
  dsimp only
  split
  · exact carries.pure _
  · cases patch with
    | none => exact carries.pure _
    | some patch =>
      cases ownedMemoryTarget env db (entityId.getD "") agentId (noMemoryError notFound (entityId.getD "")) with
      | error e => exact carries.pure _
      | ok target => exact carries.tryCatch (carries.retrying (write _ _) mode) fun e => carries.pure _

/-! ### Calls -/

/-- The services that write to the memories by more than an archival, at the world they run on. -/
structure Writing (env : Env) (R : Db → Db → Prop) (mode : Mode) (call : Call) (w : World Db Supply) : Prop where
  store : ∀ request, call = .storeMemory request → R w.durable ((SaltMdb.storeMemory env mode request).run w).2.durable
  declare : ∀ request, call = .setCoreMemory request → R w.durable ((SaltMdb.setCoreMemory env mode request).run w).2.durable
  review : ∀ request, call = .reviewCoreMemory request →
    R w.durable ((SaltMdb.reviewCoreMemory env mode request).run w).2.durable
  metadata : ∀ entityId patch agentId, call = .updateMemoryMetadata entityId patch agentId →
    R w.durable ((SaltMdb.updateMemoryMetadata env mode entityId patch agentId).run w).2.durable
  replace : ∀ operation request, call = .replaceMemory operation request →
    R w.durable ((SaltMdb.replaceMemory env mode operation request).run w).2.durable
  consolidate : ∀ request, call = .consolidateMemories request →
    R w.durable ((SaltMdb.consolidateMemories env mode request).run w).2.durable
  applyConsolidations : ∀ items agentId contextId, call = .applyConsolidations items agentId contextId →
    R w.durable ((SaltMdb.applyConsolidations env mode items agentId contextId).run w).2.durable
  bulkCommit : ∀ items agentId contextId, call = .bulkCommitConsolidation items agentId contextId →
    R w.durable ((SaltMdb.bulkCommitConsolidation env mode items agentId contextId).run w).2.durable

theorem service (carries : Carries env R spares names) {mode : Mode} {call : Call} {w : World Db Supply}
    (writing : Writing env R mode call w) (allowed : call.Allowed env spares names w) :
    R w.durable ((call.service env mode).run w).2.durable := by
  have reported : ∀ {α : Type} {service : Tx (Envelope α)}, R w.durable (service.run w).2.durable →
      R w.durable ((reports service).run w).2.durable :=
    fun moves => Txn.within_bind_at carries.trans moves fun _ => carries.pure _
  cases call with
  | storeMemory request => exact reported (writing.store request rfl)
  | replaceMemory operation request =>
    dsimp only [Call.service]
    exact reported (writing.replace operation request rfl)
  | consolidateMemories request => exact reported (writing.consolidate request rfl)
  | applyConsolidations items agentId contextId => exact reported (writing.applyConsolidations items agentId contextId rfl)
  | bulkCommitConsolidation items agentId contextId => exact reported (writing.bulkCommit items agentId contextId rfl)
  | archiveMemory entityId agentId => exact reported (carries.archiveMemory mode allowed)
  | archiveMemories requests agentId => exact reported (carries.archiveMemories mode allowed)
  | bulkArchiveMemory requests => exact reported (carries.bulkArchiveMemory mode allowed)
  | storeRelation args =>
    refine reported ?_
    rw [storeRelation_eq]
    exact carries.storeRelationIn _ w
  | invalidateRelation args =>
    refine reported ?_
    rw [invalidateRelation_eq]
    exact carries.invalidateRelationIn allowed
  | applyRelations relations agentId => exact reported (carries.applyRelations mode allowed)
  | bulkStoreRelations relations agentId invalidate => exact reported (carries.bulkStoreRelations mode allowed)
  | setCoreMemory request =>
    dsimp only [Call.service]
    exact reported (writing.declare request rfl)
  | reviewCoreMemory request => exact reported (writing.review request rfl)
  | updateMemoryMetadata entityId patch agentId =>
    dsimp only [Call.service]
    exact reported (writing.metadata entityId patch agentId rfl)
  | mergeTags keepTag tagsToMerge => exact reported (carries.mergeTags mode keepTag tagsToMerge w)
  | mergeTagsHeuristics =>
    exact Txn.within_bind_at carries.trans (carries.retrying (carries.tags (setTags_settles _)) mode w) fun _ => carries.pure _

/-- A call whose archivals and invalidations are allowed keeps the relation, whatever it answers. -/
theorem next (carries : Carries env R spares names) {w : World Db Supply} {call : Mode × Call}
    (writing : Writing env R call.1 call.2 w) (allowed : call.2.Allowed env spares names w) :
    R w.durable (Call.next env w call).durable := by
  obtain ⟨mode, call⟩ := call
  have moves := carries.service writing allowed
  cases mode with
  | direct => exact moves
  | coordinator => exact Txn.within_atomic_at carries.refl moves

end Carries

namespace Steady

variable {env : Env} {R : Db → Db → Prop} {spares : Db → EntityId → Prop} {names : Db → InvalidateRelationArgs → Prop}
  {α β : Type} {m : Tx α} {f : α → Tx β}

/-! ### Services that bring no memory in -/

theorem settleId (steady : Steady env R spares names) {id : EntityId} {g : EntityColumns → EntityColumns}
    (mild : Mild g) : Txn.Within R (Tx.setEntities (·.updateId id g)) :=
  fun w => steady.settle w.durable _ mild

theorem updateMemoryMetadata (steady : Steady env R spares names) (mode : Mode) (entityId : Option String)
    (patch : Option MetadataPatch) (agentId : Option String) :
    Txn.Within R (updateMemoryMetadata env mode entityId patch agentId) :=
  steady.toCarries.updateMemoryMetadata (fun _ _ _ => steady.settleId (.of_same fun _ => ⟨rfl, rfl, rfl, rfl, rfl, rfl⟩))
    mode entityId patch agentId

theorem reviewRetain (steady : Steady env R spares names) (row : Entity) (rationale : String) (given : Option String)
    (now : Instant) : Txn.Within R (reviewRetain env row rationale given now) := by
  unfold SaltMdb.reviewRetain
  split
  · exact steady.pure _
  · cases nextReview env given now with
    | error text => exact steady.pure _
    | ok review => exact steady.bind (steady.settleId (.of_same fun _ => ⟨rfl, rfl, rfl, rfl, rfl, rfl⟩)) fun _ => steady.pure _

theorem reviewDemote (steady : Steady env R spares names) (row : Entity) (rationale : String) (now : Instant) :
    Txn.Within R (reviewDemote row rationale now) := by
  unfold SaltMdb.reviewDemote
  split
  · exact steady.pure _
  · refine steady.bind steady.db fun db => ?_
    have mild : Mild fun c =>
        { c with isCore := false, coreReviewAfter := none, coreReviewRationale := some rationale, updatedAt := now } :=
      ⟨fun _ => Or.inl rfl, fun _ => rfl, fun _ => rfl, fun _ => rfl, fun _ h => absurd h Bool.false_ne_true, fun _ => rfl⟩
    refine steady.bind (steady.settleId mild) fun _ => ?_
    exact steady.bind (steady.tags (unlinkCoreTag_settles db row.id)) fun _ => steady.pure _

theorem reviewCoreMemory (steady : Steady env R spares names) (mode : Mode) {request : ReviewRequest} {w : World Db Supply}
    (spared : ∀ id ∈ reviewArchives env w.durable request, spares w.durable id) :
    R w.durable ((reviewCoreMemory env mode request).run w).2.durable := by
  unfold SaltMdb.reviewCoreMemory
  rw [Tx.run_db_bind]
  cases prepared : prepareReview env w.durable request with
  | error e => exact steady.refl _
  | ok found =>
    obtain ⟨id, outcome, rationale⟩ := found
    have body : R w.durable ((reviewWrite env id outcome rationale request.coreReviewAfter).run w).2.durable := by
      unfold reviewWrite
      rw [Tx.run_db_bind]
      cases row : w.durable.entities.find id with
      | none => exact steady.refl _
      | some row_ =>
        dsimp only
        rw [Tx.run_now_bind]
        cases outcome with
        | retain => exact steady.reviewRetain row_ rationale _ _ (tick w)
        | demote => exact steady.reviewDemote row_ rationale _ (tick w)
        | archive =>
          dsimp only [reviewArchive]
          split
          · exact steady.refl _
          · rename_i isCore
            split
            · exact steady.refl _
            · rename_i live
              have active : row_.activeCore = true := by
                simp only [Bool.not_eq_true, Bool.not_eq_false'] at isCore
                simp [Entity.activeCore, Entity.live, isCore, live]
              have listed : row_.id ∈ reviewArchives env w.durable request := by
                simp [reviewArchives, prepared, row, Option.filter, active]
              refine Txn.within_bind_at (w := tick w) steady.trans (steady.archiveEntityUnchecked (spared _ listed)) fun _ => ?_
              exact steady.bind (steady.settleId (.of_same fun _ => ⟨rfl, rfl, rfl, rfl, rfl, rfl⟩)) fun _ => steady.pure _
    cases mode with
    | direct => exact Txn.within_atomic_at steady.refl body
    | coordinator => exact body

/-! ### Calls -/

/-- The services that bring memories in or make them core, at the world they run on. -/
structure Declaring (env : Env) (R : Db → Db → Prop) (mode : Mode) (call : Call) (w : World Db Supply) : Prop where
  store : ∀ request, call = .storeMemory request → R w.durable ((SaltMdb.storeMemory env mode request).run w).2.durable
  declare : ∀ request, call = .setCoreMemory request → R w.durable ((SaltMdb.setCoreMemory env mode request).run w).2.durable

/-- A call whose archivals and invalidations are allowed keeps the relation, whatever it answers. -/
theorem next (steady : Steady env R spares names) {w : World Db Supply} {call : Mode × Call}
    (declaring : Declaring env R call.1 call.2 w) (recording : Kept.Recording env R)
    (allowed : call.2.Allowed env spares names w) : R w.durable (Call.next env w call).durable := by
  refine steady.toCarries.next ⟨declaring.store, declaring.declare, ?_, ?_, ?_, ?_, ?_, ?_⟩ allowed
  · intro request same
    rw [same] at allowed
    exact steady.reviewCoreMemory call.1 allowed
  · exact fun entityId patch agentId _ => steady.updateMemoryMetadata call.1 entityId patch agentId w
  · exact fun operation request _ => recording.replace call.1 operation request w
  · exact fun request _ => recording.consolidate call.1 request w
  · exact fun items agentId contextId _ => recording.applyConsolidations call.1 items agentId contextId w
  · exact fun items agentId contextId _ => recording.bulkCommit call.1 items agentId contextId w

end Steady

namespace Kept

variable {env : Env} {R : Db → Db → Prop} {spares : Db → EntityId → Prop} {names : Db → InvalidateRelationArgs → Prop}
  {α β : Type} {m : Tx α} {f : α → Tx β}

theorem updateEntities (kept : Kept env R spares names) {sel : Entity → Bool} {g : EntityColumns → EntityColumns}
    (retires : Retires g) : Txn.Within R (Tx.setEntities (·.updateWhere sel g)) :=
  fun w => kept.update w.durable sel retires

theorem updateId (kept : Kept env R spares names) {id : EntityId} {g : EntityColumns → EntityColumns}
    (retires : Retires g) : Txn.Within R (Tx.setEntities (·.updateId id g)) :=
  kept.updateEntities retires

theorem insertEntity (kept : Kept env R spares names) (e : Entity) : Txn.Within R (insertEntity e) := by
  refine Txn.within_read_bind fun w => ?_
  cases inserted : w.durable.entities.insert e with
  | none => exact kept.refl _
  | some U =>
    obtain ⟨free, rfl⟩ := EntityTable.insert_some inserted
    exact kept.arrive w.durable e free

/-! ### Storing -/

theorem writeRawScdHistory (kept : Kept env R spares names) (id : EntityId) (e : Entity) :
    Txn.Within R (writeRawScdHistory env id e) := by
  refine kept.bind (kept.advance _) fun drawn => Txn.within_read_bind fun w => ?_
  cases inserted : w.durable.entities.insert
      { e with id := id ++ "_h_" ++ .ofList (drawn.toList.take 8), status := .archived } with
  | none => exact kept.refl _
  | some U =>
    obtain ⟨free, rfl⟩ := EntityTable.insert_some inserted
    exact kept.trans _ _ _ (kept.arrive w.durable _ free) (kept.silent rfl rfl)

theorem keepScdHistory (kept : Kept env R spares names) (p : StoreProposal) (id : EntityId) (existing : Option Entity) :
    Txn.Within R (keepScdHistory env p id existing) := by
  cases existing with
  | none => exact kept.pure _
  | some old => exact kept.when_ (kept.writeRawScdHistory id old)

theorem upsertRawEntity (kept : Kept env R spares names) (p : StoreProposal) (id : EntityId) (now : Instant)
    (state : CoreState) : Txn.Within R (upsertRawEntity p id now state) := by
  intro w
  rw [SaltMdb.upsertRawEntity, Tx.run_setEntities]
  unfold EntityTable.upsert
  split
  · rename_i free
    exact kept.arrive w.durable _ free
  · exact kept.update w.durable _ fun _ => Or.inl rfl

theorem persistRawEntity (kept : Kept env R spares names) (p : StoreProposal) (id : EntityId) (now : Instant)
    (state : CoreState) (existing : Option Entity) :
    Txn.Within R (persistRawEntity env p id now state existing) := by
  unfold SaltMdb.persistRawEntity
  refine kept.bind (kept.keepScdHistory p id existing) fun _ => ?_
  refine kept.bind (kept.tags (deleteRawTags_settles id p.tags)) fun _ => ?_
  refine kept.bind (kept.upsertRawEntity p id now state) fun _ => ?_
  refine kept.bind (kept.reconcile id p.agentId _ _) fun _ => ?_
  refine kept.bind (kept.tags (writeRawTags_settles id p.tags p.agentId)) fun _ => ?_
  refine kept.bind (kept.tags (syncRawCoreTag_settles id p.agentId)) fun _ => ?_
  exact kept.jobs (enqueueRawEmbeddingJobs_settles p id existing)

theorem storeTargetId (kept : Kept env R spares names) (p : StoreProposal) : Txn.Within R (storeTargetId env p) := by
  unfold SaltMdb.storeTargetId
  split
  · exact kept.pure _
  · exact kept.advance _

theorem storeRawEntity (kept : Kept env R spares names) (p : StoreProposal) : Txn.Within R (storeRawEntity env p) := by
  unfold SaltMdb.storeRawEntity
  refine kept.bind (kept.storeTargetId p) fun id => kept.bind (kept.advance _) fun now => ?_
  refine kept.bind kept.db fun db => kept.bind (kept.ofExcept _) fun state => ?_
  exact kept.bind (kept.persistRawEntity p id now state _) fun _ => kept.pure _

theorem storeMemory (kept : Kept env R spares names) (mode : Mode) (request : StoreRequest) :
    Txn.Within R (storeMemory env mode request) := by
  unfold SaltMdb.storeMemory
  refine kept.bind kept.db fun db => kept.bind (kept.advance _) fun preview => kept.bind (kept.advance _) fun now => ?_
  cases prepareStore env db now preview request with
  | error answer => exact kept.pure _
  | ok proposal =>
    refine kept.tryCatch ?_ fun e => kept.pure _
    exact kept.bind (kept.retrying (kept.storeRawEntity proposal) mode) fun _ => kept.pure _

/-! ### Declaring -/

theorem setCoreMemory (kept : Kept env R spares names) (mode : Mode) (request : SetCoreRequest) :
    Txn.Within R (setCoreMemory env mode request) := by
  unfold SaltMdb.setCoreMemory
  cases validateSetCore request with
  | error e => exact kept.pure _
  | ok _ =>
    refine kept.retrying ?_ mode
    unfold setCoreTransaction
    refine kept.bind kept.db fun db => kept.bind (kept.advance _) fun now => ?_
    cases setCoreDecision env db now request with
    | refuse e => exact kept.pure _
    | unchanged id state => exact kept.pure _
    | write row state =>
      refine kept.bind (kept.advance _) fun now => ?_
      refine kept.bind (kept.updateId fun _ => Or.inl rfl) fun _ => ?_
      refine kept.bind (kept.reconcile _ _ _ _) fun _ => ?_
      exact kept.bind (kept.tags (syncRawCoreTag_settles _ _)) fun _ => kept.pure _

/-! ### Calls -/

/-- A call whose archivals and invalidations are allowed keeps the relation, whatever it answers. -/
theorem next (kept : Kept env R spares names) (recording : Recording env R) {w : World Db Supply} {call : Mode × Call}
    (allowed : call.2.Allowed env spares names w) : R w.durable (Call.next env w call).durable :=
  kept.toSteady.next ⟨fun request _ => kept.storeMemory call.1 request w,
    fun request _ => kept.setCoreMemory call.1 request w⟩ recording allowed

end Kept

theorem allowed_always {env : Env} (call : Call) (w : World Db Supply) : call.Allowed env (fun _ _ => True) (fun _ _ => True) w := by
  have spared : ∀ (requests : List ArchiveRequest) (v : World Db Supply),
      ArchivesSpared env (fun _ _ => True) requests v := by
    intro requests
    induction requests with
    | nil => exact fun v => trivial
    | cons request rest ih => exact fun v => ⟨fun _ _ => trivial, ih _⟩
  cases call with
  | bulkArchiveMemory requests => exact spared requests w
  | _ => simp [Call.Allowed, InvalidationsNamed]

end SaltMdb
