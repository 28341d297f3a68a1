import SaltMdb.Store.Frames
import SaltMdb.Tag.Merge

/-! The writers of tags never raise, and touch nothing but tags and events. -/

namespace SaltMdb
open Transactions

variable {env : Env}

section
variable {α β : Type} {m : Tx α} {f : α → Tx β}

theorem onlyTags_bind (first : Txn.Settles Db.OnlyTags m) (rest : ∀ a, Txn.Settles Db.OnlyTags (f a)) :
    Txn.Settles Db.OnlyTags (m >>= f) :=
  Txn.settles_bind (fun _ _ _ h k => h.trans k) first rest

theorem onlyTags_pure (a : α) : Txn.Settles Db.OnlyTags (pure a : Tx α) := Txn.settles_pure Db.OnlyTags.refl a

end

theorem onlyTags_db : Txn.Settles Db.OnlyTags Tx.db := Txn.settles_read Db.OnlyTags.refl

theorem setTags_settles (f : TagTable → TagTable) : Txn.Settles Db.OnlyTags (Tx.setTags f) :=
  fun _ => ⟨_, _, rfl, rfl⟩

theorem logEvent_settles (agentId : String) (content : EventContent) :
    Txn.Settles Db.OnlyTags (logEvent env agentId content) :=
  fun _ => ⟨_, _, rfl, rfl⟩

theorem logTagIssue_settles (agentId : Option String) (content : String) :
    Txn.Settles Db.OnlyTags (logTagIssue env agentId content) :=
  logEvent_settles _ _

/-! ### Resolution -/

theorem resolutionBody_settles (name : String) (agentId : Option String) :
    Txn.Settles Db.OnlyTags (resolutionBody env name agentId) := by
  unfold resolutionBody
  cases sanitizeTagBody (tagBody name) with
  | ok body => exact onlyTags_pure _
  | error rejection => exact onlyTags_bind (logTagIssue_settles _ _) fun _ => onlyTags_pure _

theorem logSanitized_settles (agentId : Option String) (name sanitized : String) :
    Txn.Settles Db.OnlyTags (logSanitized env agentId name sanitized) := by
  unfold logSanitized
  split
  · exact onlyTags_pure _
  · exact logTagIssue_settles _ _

theorem sanitizeResolutionName_settles (name : String) (agentId : Option String) :
    Txn.Settles Db.OnlyTags (sanitizeResolutionName env name agentId) :=
  onlyTags_bind (resolutionBody_settles _ _) fun _ => onlyTags_bind (logSanitized_settles _ _ _) fun _ => onlyTags_pure _

/-- A name that no row carries can be inserted. -/
theorem insert_of_fetchName {T : TagTable} {name : String} (key : String) (missing : T.fetchName name = none) :
    ∃ U, T.insert name key = some U := by
  have free : ∀ t ∈ T.tags, t.name ≠ name := by
    intro t member same
    have absent := List.find?_eq_none.mp missing t member
    simp [same] at absent
  exact ⟨_, dif_pos free⟩

theorem fetchName_of_resolve {T : TagTable} {name : String} (missing : T.resolve name = none) :
    T.fetchName name = none := by
  simp only [TagTable.resolve, Option.map_eq_none_iff, Option.or_eq_none_iff] at missing
  exact missing.1.1

theorem resolveOrCreateTag_settles (name : String) (agentId : Option String) :
    Txn.Settles Db.OnlyTags (resolveOrCreateTag env name agentId) := by
  unfold resolveOrCreateTag
  extract_lets name
  split
  · exact onlyTags_pure _
  · refine onlyTags_bind (sanitizeResolutionName_settles _ _) fun sanitized => ?_
    split
    · exact onlyTags_pure _
    · intro w
      rw [Tx.run_db_bind]
      split
      · exact ⟨_, w, Txn.run_pure _ w, Db.OnlyTags.refl _⟩
      · rename_i missing
        obtain ⟨U, inserted⟩ := insert_of_fetchName (normalizedTagKey sanitized) (fetchName_of_resolve missing)
        rw [inserted]
        exact onlyTags_bind (setTags_settles _) (fun _ => onlyTags_pure _) w

/-! ### Writers -/

theorem linkTag_settles (id : EntityId) (tag : Option TagId) : Txn.Settles Db.OnlyTags (linkTag id tag) := by
  cases tag with
  | none => exact onlyTags_pure _
  | some tag => exact setTags_settles fun T => T.link id tag

theorem resolveAndLink_settles (id : EntityId) (agentId : Option String) (tag : String) :
    Txn.Settles Db.OnlyTags (do linkTag id (← resolveOrCreateTag env tag agentId)) :=
  onlyTags_bind (resolveOrCreateTag_settles _ _) fun _ => linkTag_settles _ _

theorem deleteRawTags_settles (id : EntityId) (tags : Option (List String)) :
    Txn.Settles Db.OnlyTags (deleteRawTags id tags) := by
  cases tags with
  | none => exact onlyTags_pure _
  | some tags => exact setTags_settles fun T => T.unlinkWhere (·.1 == id)

theorem writeRawTag_settles (id : EntityId) (agentId : Option String) (lookup : List (String × TagId)) (tag : String) :
    Txn.Settles Db.OnlyTags (writeRawTag env id agentId lookup tag) := by
  unfold writeRawTag
  extract_lets name key
  split
  · exact onlyTags_pure _
  · split
    · exact onlyTags_bind (linkTag_settles _ _) fun _ => onlyTags_pure _
    · refine onlyTags_bind (resolveOrCreateTag_settles _ _) fun found => ?_
      split
      · exact onlyTags_pure _
      · exact onlyTags_bind (linkTag_settles _ _) fun _ => onlyTags_pure _

theorem writeRawTagList_settles (id : EntityId) (agentId : Option String) (tags : List String)
    (lookup : List (String × TagId)) : Txn.Settles Db.OnlyTags (writeRawTagList env id agentId tags lookup) := by
  induction tags generalizing lookup with
  | nil => exact onlyTags_pure _
  | cons tag rest ih => exact onlyTags_bind (writeRawTag_settles _ _ _ _) ih

theorem writeRawTags_settles (id : EntityId) (tags : Option (List String)) (agentId : Option String) :
    Txn.Settles Db.OnlyTags (writeRawTags env id tags agentId) := by
  cases tags with
  | none => exact onlyTags_pure _
  | some tags => exact writeRawTagList_settles id agentId tags []

theorem syncRawCoreTag_settles (id : EntityId) (agentId : Option String) :
    Txn.Settles Db.OnlyTags (syncRawCoreTag env id agentId) := by
  unfold syncRawCoreTag
  refine onlyTags_bind onlyTags_db fun db => onlyTags_bind (resolveOrCreateTag_settles _ _) fun found => ?_
  split
  · exact onlyTags_pure _
  · split
    · exact setTags_settles _
    · exact setTags_settles _

theorem insertReplacementTags_settles (id : EntityId) (agentId : Option String) (tags seen : List String) :
    Txn.Settles Db.OnlyTags (insertReplacementTags env id agentId tags seen) := by
  induction tags generalizing seen with
  | nil => exact onlyTags_pure _
  | cons tag rest ih =>
    unfold insertReplacementTags
    extract_lets name key
    split
    · exact ih seen
    · exact onlyTags_bind (resolveOrCreateTag_settles _ _) fun _ => onlyTags_bind (linkTag_settles _ _) fun _ => ih _

theorem insertTags_settles (id : EntityId) (agentId : Option String) (tags : List String) :
    Txn.Settles Db.OnlyTags (insertTags env id agentId tags) :=
  Txn.settles_forEach Db.OnlyTags.refl (fun _ _ _ h k => h.trans k) (resolveAndLink_settles id agentId) tags

theorem linkCoreTag_settles (id : EntityId) (agentId : Option String) :
    Txn.Settles Db.OnlyTags (linkCoreTag env id agentId) :=
  resolveAndLink_settles id agentId coreTag

/-! ### Merges -/

theorem mergeTag_settles (canonical : TagId) (report : List String × List (String × String)) (name : String) :
    Txn.Settles Db.OnlyTags (mergeTag canonical report name) := by
  unfold mergeTag
  refine onlyTags_bind onlyTags_db fun db => ?_
  cases db.tags.resolveId name with
  | none => exact onlyTags_pure _
  | some alias_ =>
    dsimp only
    split
    · exact onlyTags_pure _
    · exact onlyTags_bind (setTags_settles _) fun _ => onlyTags_pure _

theorem mergeTagList_settles (canonical : TagId) (names : List String) (report : List String × List (String × String)) :
    Txn.Settles Db.OnlyTags (mergeTagList canonical names report) := by
  induction names generalizing report with
  | nil => exact onlyTags_pure _
  | cons name rest ih => exact onlyTags_bind (mergeTag_settles canonical report name) ih

end SaltMdb
