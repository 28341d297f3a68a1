import Mathlib.Data.List.Nodup
import SaltMdb.Core.Governance

/-! What a passed check of declared details establishes: full ids in lower case, each the id of a shared memory
that is not core itself and that the content mentions. -/

namespace SaltMdb
open Transactions

variable {env : Env}

/-! ### Ids -/

theorem isHex_ascii {c : Char} (h : isHex c = true) : c.toNat < 128 := by
  simp only [isHex, Bool.or_eq_true, Bool.and_eq_true, decide_eq_true_eq, Char.le_def, UInt32.le_iff_toNat_le] at h
  have nine : ('9' : Char).val.toNat = 57 := rfl
  have eff : ('F' : Char).val.toNat = 70 := rfl
  have low : ('f' : Char).val.toNat = 102 := rfl
  rw [nine, eff, low] at h
  have same : c.toNat = c.val.toNat := rfl
  omega

/-- What a character of an id can be. -/
def idChar (c : Char) : Bool := isHex c || c == '-'

theorem idChar_ascii {c : Char} (h : idChar c = true) : c.toNat < 128 := by
  rcases (Bool.or_eq_true _ _).mp h with hex | dash
  · exact isHex_ascii hex
  · rw [beq_iff_eq.mp dash]
    decide

theorem idChar_not_space {c : Char} (h : idChar c = true) : Text.isSpace c = false := by
  have checked := Text.passes_ascii (fun c => !idChar c || !Text.isSpace c) (by decide) (idChar_ascii h)
  simpa [h] using checked

theorem matchesShape_idChar {shape : List Bool} {cs : List Char} (matched : matchesShape shape cs = true)
    (length : cs.length = shape.length) : ∀ c ∈ cs, idChar c = true := by
  induction shape generalizing cs with
  | nil => simp [List.eq_nil_of_length_eq_zero length]
  | cons hex rest ih =>
    cases cs with
    | nil => simp at length
    | cons c cs =>
      simp only [matchesShape, Bool.and_eq_true] at matched
      have tail := ih matched.2 (by simpa using length)
      intro x member
      rcases List.mem_cons.mp member with rfl | later
      · cases hex <;> simp_all [idChar]
      · exact tail x later

theorem isUuid_chars {s : String} (h : isUuid s = true) : ∀ c ∈ s.toList, idChar c = true := by
  simp only [isUuid, Bool.and_eq_true, beq_iff_eq] at h
  exact matchesShape_idChar h.2 h.1

theorem strip_of_idChar {s : String} (h : ∀ c ∈ s.toList, idChar c = true) : Text.strip s = s := by
  have front : s.toList.dropWhile Text.isSpace = s.toList := by
    rw [List.dropWhile_eq_self_iff]
    intro nonempty
    rw [idChar_not_space (h _ (List.getElem_mem nonempty))]
    exact Bool.false_ne_true
  have back : s.toList.reverse.dropWhile Text.isSpace = s.toList.reverse := by
    rw [List.dropWhile_eq_self_iff]
    intro nonempty
    have last := h _ (List.mem_reverse.mp (List.getElem_mem nonempty))
    rw [idChar_not_space last]
    exact Bool.false_ne_true
  simp only [Text.strip, Text.stripEnds, front, back, List.reverse_reverse, String.ofList_toList]

theorem idChar_toLower {c : Char} (h : idChar c = true) : idChar c.toLower = true ∧ Text.lowerChar c = [c.toLower] := by
  have checked := Text.passes_ascii (fun c => !idChar c || (idChar c.toLower && Text.lowerChar c == [c.toLower]))
    (by decide) (idChar_ascii h)
  simpa [h] using checked

theorem lower_toList {s : String} (h : ∀ c ∈ s.toList, idChar c = true) :
    (Text.lower s).toList = s.toList.map Char.toLower := by
  have chars : s.toList.flatMap Text.lowerChar = s.toList.map Char.toLower := by
    generalize s.toList = cs at h
    induction cs with
    | nil => rfl
    | cons c cs ih =>
      rw [List.flatMap_cons, (idChar_toLower (h c List.mem_cons_self)).2, List.map_cons,
        ih fun x member => h x (List.mem_cons_of_mem c member)]
      rfl
  rw [Text.lower, String.toList_ofList, chars]

/-- The normal form of a declared id is itself stripped and nonempty. -/
structure PlainId (id : EntityId) : Prop where
  stripped : Text.strip id = id
  nonempty : id ≠ ""

theorem plainId_lower {s : String} (h : isUuid s = true) : PlainId (Text.lower s) := by
  have chars := isUuid_chars h
  have lowered := lower_toList chars
  constructor
  · refine strip_of_idChar fun c member => ?_
    rw [lowered] at member
    obtain ⟨d, old, rfl⟩ := List.mem_map.mp member
    exact (idChar_toLower (chars d old)).1
  · rintro empty
    have length := congrArg List.length lowered
    simp only [isUuid, Bool.and_eq_true, beq_iff_eq] at h
    rw [empty, List.length_map, h.1] at length
    simp at length

/-- An id in the form the check of declared details gives it. -/
structure NormalId (id : EntityId) : Prop where
  uuid : isUuid id = true
  normal : Text.lower (Text.strip id) = id

theorem matchesShape_lower {shape : List Bool} {cs : List Char} (matched : matchesShape shape cs = true)
    (length : cs.length = shape.length) : matchesShape shape (cs.map Char.toLower) = true := by
  induction shape generalizing cs with
  | nil => simp [matchesShape]
  | cons hex rest ih =>
    cases cs with
    | nil => simp at length
    | cons c cs =>
      simp only [matchesShape, Bool.and_eq_true] at matched
      have tail := ih matched.2 (by simpa using length)
      have head : (if hex then isHex c.toLower else c.toLower == '-') = true := by
        cases hex with
        | false =>
          have dash : c = '-' := by simpa using matched.1
          rw [dash]
          decide
        | true =>
          have isHexChar : isHex c = true := by simpa using matched.1
          have checked := Text.passes_ascii (fun c => !isHex c || isHex c.toLower) (by decide) (isHex_ascii isHexChar)
          simpa [isHexChar] using checked
      rw [List.map_cons, matchesShape, Bool.and_eq_true]
      exact ⟨head, tail⟩

theorem normalId_lower {s : String} (h : isUuid s = true) : NormalId (Text.lower s) := by
  have chars := isUuid_chars h
  have lowered := lower_toList chars
  have plain := plainId_lower h
  constructor
  · simp only [isUuid, Bool.and_eq_true, beq_iff_eq] at h ⊢
    rw [lowered, List.length_map]
    exact ⟨h.1, matchesShape_lower h.2 h.1⟩
  · have again : ∀ c ∈ (Text.lower s).toList, idChar c = true := by
      intro c member
      rw [lowered] at member
      obtain ⟨d, old, rfl⟩ := List.mem_map.mp member
      exact (idChar_toLower (chars d old)).1
    have fixed : (s.toList.map Char.toLower).map Char.toLower = s.toList.map Char.toLower := by
      rw [List.map_map]
      refine List.map_congr_left fun c member => ?_
      have checked := Text.passes_ascii (fun c => c.toLower.toLower == c.toLower) (by decide)
        (idChar_ascii (chars c member))
      simpa using checked
    rw [plain.stripped]
    apply String.toList_inj.mp
    rw [lower_toList again, lowered, fixed]

/-- A plain id of a row refers to that row. -/
theorem resolveEntityRef_plain {db : Db} {id : EntityId} {e : Entity} (plain : PlainId id)
    (found : db.entities.find id = some e) : (resolveEntityRef env db id none).resolved = some id := by
  have here : resolveEntityId env db id = id := by
    unfold resolveEntityId
    simp only [plain.stripped, if_neg plain.nonempty, found, Option.isSome_some, if_true]
  unfold resolveEntityRef
  rw [if_neg plain.nonempty, here, found]
  have visible : (some e).filter (visibleTo none) = some e := rfl
  rw [visible]
  exact congrArg some (EntityTable.find_some found).2

/-! ### Declared details -/

/-- What the check of one reference asks of the memory and of the content of the core. -/
structure Db.Declarable (db : Db) (content : String) (id : EntityId) : Prop where
  plain : PlainId id
  target : ∃ e, db.entities.find id = some e ∧ e.scope = .shared ∧ e.isCore = false ∧
    Text.contains content e.title = true
  mentioned : Text.contains content id = true

theorem validateDetailReference_ok {db : Db} {uid : EntityId} {content : String}
    (h : validateDetailReference db uid content = .ok ()) :
    (∃ e, db.entities.find uid = some e ∧ e.scope = .shared ∧ e.isCore = false ∧ Text.contains content e.title = true) ∧
      Text.contains content uid = true := by
  unfold validateDetailReference at h
  split at h
  · simp at h
  · rename_i e found
    split at h
    · simp at h
    · rename_i shared
      split at h
      · simp at h
      · rename_i plain
        split at h
        · simp at h
        · rename_i mentions
          simp only [Bool.or_eq_true, Bool.not_eq_true', not_or, Bool.not_eq_false] at mentions
          exact ⟨⟨e, found, not_not.mp shared, by simpa using plain, mentions.1⟩, mentions.2⟩

/-- The declared ids are the references in normal form. -/
def normalDetails (references : List String) : List EntityId := references.map fun raw => Text.lower (Text.strip raw)

theorem validateDetailReferences_ok {db : Db} {content : String} {references : List String} {seen details : List EntityId}
    (h : validateDetailReferences db content references seen = .ok details) :
    ∀ id ∈ details, id ∈ seen ∨ (db.Declarable content id ∧ id ∈ normalDetails references) := by
  induction references generalizing seen with
  | nil =>
    obtain rfl := Except.ok.inj h
    exact fun id member => Or.inl member
  | cons raw rest ih =>
    unfold validateDetailReferences at h
    split at h
    · rename_i shaped
      dsimp only at h
      have later : ∀ id, id ∈ normalDetails rest → id ∈ normalDetails (raw :: rest) :=
        fun id member => List.mem_cons_of_mem _ member
      split at h
      · intro id member
        rcases ih h id member with old | ⟨declarable, named⟩
        · exact Or.inl old
        · exact Or.inr ⟨declarable, later id named⟩
      · obtain ⟨_, checked, h⟩ := Checks.bind_ok h
        have target := validateDetailReference_ok checked
        intro id member
        rcases ih h id member with old | ⟨declarable, named⟩
        · rcases List.mem_append.mp old with old | new
          · exact Or.inl old
          · obtain rfl := List.mem_singleton.mp new
            exact Or.inr ⟨⟨plainId_lower shaped, target.1, target.2⟩, List.mem_cons_self⟩
        · exact Or.inr ⟨declarable, later id named⟩
    · simp at h

theorem validateDetailMemoryIds_ok {db : Db} {content : String} {references : List String} {details : List EntityId}
    (h : validateDetailMemoryIds db references content = .ok details) :
    ∀ id ∈ details, db.Declarable content id ∧ id ∈ normalDetails references := by
  unfold validateDetailMemoryIds at h
  split at h
  · simp at h
  · intro id member
    rcases validateDetailReferences_ok h id member with seen | declared
    · simp at seen
    · exact declared

theorem validateDetailReferences_normal {db : Db} {content : String} {references : List String}
    {seen details : List EntityId} (h : validateDetailReferences db content references seen = .ok details) :
    (∀ id ∈ details, id ∈ seen ∨ NormalId id) ∧ details.length ≤ seen.length + references.length := by
  induction references generalizing seen with
  | nil =>
    obtain rfl := Except.ok.inj h
    exact ⟨fun id member => Or.inl member, Nat.le_add_right _ _⟩
  | cons raw rest ih =>
    unfold validateDetailReferences at h
    split at h
    · rename_i shaped
      dsimp only at h
      split at h
      · obtain ⟨normal, bounded⟩ := ih h
        refine ⟨normal, ?_⟩
        rw [List.length_cons]
        omega
      · obtain ⟨_, _, h⟩ := Checks.bind_ok h
        obtain ⟨normal, bounded⟩ := ih h
        rw [List.length_append, List.length_singleton] at bounded
        refine ⟨fun id member => ?_, by rw [List.length_cons]; omega⟩
        rcases normal id member with known | shape
        · rcases List.mem_append.mp known with old | new
          · exact Or.inl old
          · obtain rfl := List.mem_singleton.mp new
            exact Or.inr (normalId_lower shaped)
        · exact Or.inr shape
    · simp at h

theorem validateDetailMemoryIds_normal {db : Db} {content : String} {references : List String} {details : List EntityId}
    (h : validateDetailMemoryIds db references content = .ok details) :
    (∀ id ∈ details, NormalId id) ∧ details.length ≤ coreMaxDetailMemoryIds := by
  unfold validateDetailMemoryIds at h
  split at h
  · simp at h
  · rename_i few
    obtain ⟨normal, bounded⟩ := validateDetailReferences_normal h
    rw [List.length_nil, Nat.zero_add] at bounded
    refine ⟨fun id member => ?_, by omega⟩
    rcases normal id member with none_ | shape
    · simp at none_
    · exact shape

/-- Declared ids in normal form that still pass the check one by one pass it together. -/
theorem validateDetailMemoryIds_valid {db : Db} {content : String} {details : List EntityId}
    (few : details.length ≤ coreMaxDetailMemoryIds)
    (valid : ∀ id ∈ details, NormalId id ∧ validateDetailReference db id content = .ok ()) :
    ∃ kept, validateDetailMemoryIds db details content = .ok kept := by
  have walked : ∀ seen, ∃ kept, validateDetailReferences db content details seen = .ok kept := by
    clear few
    induction details with
    | nil => exact fun seen => ⟨seen, rfl⟩
    | cons id rest ih =>
      intro seen
      obtain ⟨shape, checked⟩ := valid id List.mem_cons_self
      have later := ih fun other member => valid other (List.mem_cons_of_mem _ member)
      have shaped : isUuid (Text.strip id) = true := by
        rw [strip_of_idChar (isUuid_chars shape.uuid)]
        exact shape.uuid
      unfold validateDetailReferences
      rw [if_pos shaped]
      dsimp only
      rw [shape.normal, checked]
      split
      · exact later seen
      · exact later (seen ++ [id])
  unfold validateDetailMemoryIds
  rw [if_neg (Nat.not_lt.mpr few)]
  exact walked []

/-! ### Derived memories -/

/-- The state a derived memory gets: none of the core fields, or the details that were checked. -/
theorem resolveDerivedCoreState_ok {db : Db} {now : Instant} {sources : List EntityId} {declaration : CoreDeclaration}
    {content : String} {scope : Scope} {entry : CoreEntry} {state : CoreState}
    (h : resolveDerivedCoreState env db now sources declaration content scope entry = .ok state) :
    (declaration.isCore ≠ some true ∧ state = nonCoreState []) ∨
      (declaration.isCore = some true ∧ state.isCore = true ∧
        validateDetailMemoryIds db (declaration.detailMemoryIds.getD []) content = .ok state.coreDetailMemoryIds) := by
  obtain ⟨settled, decided, h⟩ := Checks.bind_ok h
  have same : state = settled := by
    split at h
    · obtain ⟨_, _, h⟩ := Checks.bind_ok h
      split at h
      · simp at h
      · exact (Except.ok.inj h).symm
    · exact (Except.ok.inj h).symm
  subst same
  unfold resolveConsolidationCoreState at decided
  split at decided
  · rename_i omitted
    split at decided
    · simp at decided
    · exact Or.inl ⟨by simp [omitted], (Except.ok.inj decided).symm⟩
  · rename_i plain
    exact Or.inl ⟨by simp [plain], (Except.ok.inj decided).symm⟩
  · rename_i core
    split at decided
    · simp at decided
    · obtain ⟨_, _, decided⟩ := Checks.bind_ok (Checks.mapError_ok decided)
      obtain ⟨_, _, decided⟩ := Checks.bind_ok decided
      obtain ⟨_, _, decided⟩ := Checks.bind_ok decided
      obtain ⟨_, _, decided⟩ := Checks.bind_ok decided
      obtain ⟨details, checked, decided⟩ := Checks.bind_ok decided
      obtain rfl := Except.ok.inj decided
      exact Or.inr ⟨core, rfl, checked⟩

/-- What the core state of a derived memory declares, each detail with the row the check found. -/
theorem resolveDerivedCoreState_details {db : Db} {now : Instant} {sources : List EntityId} {declaration : CoreDeclaration}
    {content : String} {scope : Scope} {entry : CoreEntry} {state : CoreState}
    (h : resolveDerivedCoreState env db now sources declaration content scope entry = .ok state) :
    ∀ id ∈ state.coreDetailMemoryIds, db.Declarable content id ∧ id ∈ normalDetails (declaration.detailMemoryIds.getD []) := by
  rcases resolveDerivedCoreState_ok h with ⟨_, rfl⟩ | ⟨_, _, checked⟩
  · simp [nonCoreState]
  · exact validateDetailMemoryIds_ok checked

end SaltMdb
