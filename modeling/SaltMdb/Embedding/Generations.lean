import SaltMdb.Library.Dictionary

/-! The generations of embeddings, each in a vector table of its own, and what every call on them keeps. -/

namespace SaltMdb

abbrev GenerationId := String

structure GenerationSpec where
  modelId : String
  modelRevision : String
  dimension : Nat
  queryPrefix : String
  documentPrefix : String
  normalization : String
  representation : String
  sourceManifestHash : String
  complete : modelId ≠ "" ∧ modelRevision ≠ "" ∧ normalization ≠ "" ∧ representation ≠ "" ∧ sourceManifestHash ≠ "" ∧ 1 ≤ dimension

inductive GenerationState where
  | building
  | ready
  | active
  | failed
  | retired
deriving DecidableEq, Repr

/-- A row of `embedding_generations`; `spec_json` is the specification that is read back from it. -/
structure Generation where
  id : GenerationId
  spec : GenerationSpec
  specHash : String
  vectorTable : String
  state : GenerationState
  expectedCount : Int
  embeddedCount : Nat
  healthCheckHash : Option String
  createdAt : String
  activatedAt : Option String

inductive GenerationEntityState where
  | ready
  | failed
deriving DecidableEq, Repr

structure GenerationEntity where
  generationId : GenerationId
  entityId : String
  sourceHash : String
  vectorChecksum : String
  state : GenerationEntityState
  updatedAt : String

def GenerationEntity.key (e : GenerationEntity) : GenerationId × String := (e.generationId, e.entityId)

/-- A row of a generation's vector table. -/
structure VectorRow where
  entityId : String
  embedding : List UInt8
  sourceHash : String
  vectorChecksum : String
deriving DecidableEq, Repr

structure GenerationActivation where
  generationId : GenerationId
  previousGenerationId : Option GenerationId
  activatedAt : String
  reason : String

structure GenerationStore where
  generations : List Generation
  entities : List GenerationEntity
  tables : String → Option (List VectorRow)
  activations : List GenerationActivation

def GenerationStore.empty : GenerationStore := ⟨[], [], fun _ => none, []⟩

/-- What the module takes from `hashlib` and `sqlite_vec`. -/
structure GenerationEnv (ν : Type) where
  fingerprint : GenerationSpec → String
  token : GenerationId → String
  serializeFloat32 : List ν → List UInt8
  checksum : List UInt8 → String

variable {ν : Type} (env : GenerationEnv ν)

/-! ### The four calls -/

def isAsciiAlnum (c : Char) : Bool := ('a' ≤ c && c ≤ 'z') || ('A' ≤ c && c ≤ 'Z') || ('0' ≤ c && c ≤ '9')

/-- `GENERATION_ID_RE`. -/
def validGenerationId (id : GenerationId) : Bool :=
  match id.toList with
  | [] => false
  | first :: rest => isAsciiAlnum first && decide (rest.length ≤ 127) && rest.all fun c => isAsciiAlnum c || c == '_' || c == '.' || c == '-'

def generationTableName (id : GenerationId) (dimension : Nat) : Except String String :=
  if !validGenerationId id || decide (dimension < 1) then .error "invalid generation identifier or dimension"
  else .ok ("entity_embeddings_g_" ++ env.token id ++ "_d" ++ toString dimension)

def GenerationStore.find (s : GenerationStore) (id : GenerationId) : Option Generation := s.generations.find? (·.id == id)

def GenerationStore.amend (s : GenerationStore) (change : Generation → Generation) : GenerationStore :=
  { s with generations := s.generations.map change }

/-- The change of the one row with the id. -/
def onGeneration (id : GenerationId) (change : Generation → Generation) (g : Generation) : Generation :=
  if g.id = id then change g else g

def registerGeneration (s : GenerationStore) (now : String) (id : GenerationId) (spec : GenerationSpec) (expectedCount : Int) :
    Except String (String × GenerationStore) :=
  if expectedCount < 1 then .error "eligible generation coverage must be non-zero"
  else match generationTableName env id spec.dimension with
    | .error message => .error message
    | .ok table =>
      match s.find id with
      | some existing =>
        if (existing.specHash, existing.expectedCount, existing.vectorTable) ≠ (env.fingerprint spec, expectedCount, table) then
          .error "generation ID already exists with incompatible metadata"
        else .ok (table, s)
      | none =>
        if (s.tables table).isSome then .error ("table " ++ table ++ " already exists")
        else .ok (table,
          { s with
            generations := s.generations ++ [⟨id, spec, env.fingerprint spec, table, .building, expectedCount, 0, none, now, none⟩]
            tables := Function.update s.tables table (some []) })

/-- The rows after `DELETE … WHERE entity_id=?` and the `INSERT`. -/
def putRow (rows : List VectorRow) (row : VectorRow) : List VectorRow := rows.filter (·.entityId != row.entityId) ++ [row]

/-- `SELECT COUNT(*) … WHERE generation_id=? AND state='ready'`. -/
def readyCount (entities : List GenerationEntity) (id : GenerationId) : Nat :=
  entities.countP fun e => e.generationId == id && e.state == .ready

/-- The store after a vector of the generation is written. -/
def GenerationStore.record (s : GenerationStore) (now : String) (g : Generation) (rows : List VectorRow) (row : VectorRow) : GenerationStore :=
  let entities := Dictionary.assign GenerationEntity.key s.entities ⟨g.id, row.entityId, row.sourceHash, row.vectorChecksum, .ready, now⟩
  { s with
    tables := Function.update s.tables g.vectorTable (some (putRow rows row))
    entities := entities
    generations := s.generations.map (onGeneration g.id fun g => { g with embeddedCount := readyCount entities g.id }) }

def vectorRow (entityId sourceHash : String) (vector : List ν) : VectorRow :=
  let blob := env.serializeFloat32 vector
  ⟨entityId, blob, sourceHash, env.checksum blob⟩

def recordGenerationVector (s : GenerationStore) (now : String) (id : GenerationId) (entityId sourceHash : String) (vector : List ν) :
    Except String (String × GenerationStore) :=
  match s.find id with
  | none => .error "generation is unavailable for embedding writes"
  | some g =>
    if g.state ≠ .building ∧ g.state ≠ .ready then .error "generation is unavailable for embedding writes"
    else if vector.length ≠ g.spec.dimension then .error "vector dimension does not match generation"
    else match s.tables g.vectorTable with
      | none => .error ("no such table: " ++ g.vectorTable)
      | some rows => .ok ((vectorRow env entityId sourceHash vector).vectorChecksum, s.record now g rows (vectorRow env entityId sourceHash vector))

def markGenerationReady (s : GenerationStore) (id : GenerationId) (healthCheckHash : String) : Except String GenerationStore :=
  match s.find id with
  | none => .error "only a building generation can become ready"
  | some g =>
    if g.state ≠ .building then .error "only a building generation can become ready"
    else if g.expectedCount ≠ g.embeddedCount ∨ healthCheckHash = "" then .error "generation coverage or health verification is incomplete"
    else .ok (s.amend (onGeneration id fun g => { g with state := .ready, healthCheckHash := some healthCheckHash }))

/-- `if not row[3]`. -/
def unverified (healthCheckHash : Option String) : Bool := healthCheckHash.all (· == "")

def activateGeneration (s : GenerationStore) (now : String) (id : GenerationId) (reason : String) : Except String GenerationStore :=
  match s.find id with
  | none => .error "generation is not ready for activation"
  | some g =>
    if g.state ≠ .ready ∧ g.state ≠ .active then .error "generation is not ready for activation"
    else if g.expectedCount ≠ g.embeddedCount ∨ unverified g.healthCheckHash = true ∨ reason = "" then
      .error "generation cannot activate without full coverage and health checks"
    else
      let previous := (s.generations.find? fun g => g.state == .active && g.id != id).map (·.id)
      let displaced := previous.elim s fun previous => s.amend (onGeneration previous fun g => { g with state := .ready })
      let activated := displaced.amend (onGeneration id fun g => { g with state := .active, activatedAt := some now })
      .ok { activated with activations := s.activations ++ [⟨id, previous, now, reason⟩] }

/-! ### What an accepted call does -/

variable {env} {s s' : GenerationStore} {now table checksum entityId sourceHash hash reason : String} {id : GenerationId} {spec : GenerationSpec}
  {expectedCount : Int} {vector : List ν}

theorem GenerationStore.find_some {g : Generation} (found : s.find id = some g) : g ∈ s.generations ∧ g.id = id :=
  ⟨List.mem_of_find?_eq_some found, by simpa using List.find?_some found⟩

theorem GenerationStore.find_none (missing : s.find id = none) : ∀ g ∈ s.generations, g.id ≠ id := by
  simpa [GenerationStore.find] using missing

/-- The id is known already and nothing changes, or an empty generation with a table of its own is added. -/
theorem registerGeneration_ok (done : registerGeneration env s now id spec expectedCount = .ok (table, s')) :
    s' = s ∨ (∀ g ∈ s.generations, g.id ≠ id) ∧ s.tables table = none ∧ ∃ g : Generation,
      g.id = id ∧ g.vectorTable = table ∧ g.state = .building ∧ g.embeddedCount = 0 ∧
        s' = { s with generations := s.generations ++ [g], tables := Function.update s.tables table (some []) } := by
  unfold registerGeneration at done
  split at done
  · cases done
  · split at done
    · cases done
    · split at done
      · split at done
        · cases done
        · cases done
          exact .inl rfl
      · rename_i missing
        split at done
        · cases done
        · rename_i absent
          cases done
          refine .inr ⟨GenerationStore.find_none missing, by simpa using absent, _, ?_, ?_, ?_, ?_, rfl⟩
          all_goals rfl

theorem recordGenerationVector_ok : recordGenerationVector env s now id entityId sourceHash vector = .ok (checksum, s') ↔
    ∃ g, s.find id = some g ∧ (g.state = .building ∨ g.state = .ready) ∧ vector.length = g.spec.dimension ∧
      ∃ rows, s.tables g.vectorTable = some rows ∧ (vectorRow env entityId sourceHash vector).vectorChecksum = checksum ∧
        s.record now g rows (vectorRow env entityId sourceHash vector) = s' := by
  unfold recordGenerationVector
  constructor
  · intro done
    split at done
    · cases done
    · rename_i g found
      split at done
      · cases done
      · rename_i writable
        split at done
        · cases done
        · rename_i fits
          split at done
          · cases done
          · rename_i rows stored
            cases done
            refine ⟨g, found, ?_, not_not.mp fits, rows, stored, rfl, rfl⟩
            rwa [not_and_or, not_not, not_not] at writable
  · rintro ⟨g, found, writable, fits, rows, stored, rfl, rfl⟩
    have accepted : ¬ (g.state ≠ .building ∧ g.state ≠ .ready) := by
      rwa [not_and_or, not_not, not_not]
    rw [found]
    dsimp only
    rw [if_neg accepted, if_neg (not_not.mpr fits), stored]

theorem markGenerationReady_ok (done : markGenerationReady s id hash = .ok s') :
    ∃ g, s.find id = some g ∧ g.state = .building ∧ g.expectedCount = g.embeddedCount ∧
      s' = s.amend (onGeneration id fun g => { g with state := .ready, healthCheckHash := some hash }) := by
  unfold markGenerationReady at done
  split at done
  · cases done
  · rename_i g found
    split at done
    · cases done
    · rename_i building
      split at done
      · cases done
      · rename_i covered
        cases done
        rw [not_or, not_not] at covered
        exact ⟨g, found, not_not.mp building, covered.1, rfl⟩

/-- What an activation makes of a generation, `previous` being the one that it displaces. -/
def switched (now : String) (id : GenerationId) (previous : Option GenerationId) (g : Generation) : Generation :=
  if g.id = id then { g with state := .active, activatedAt := some now }
  else if some g.id = previous then { g with state := .ready } else g

theorem displaced_activated {previous : Option GenerationId} (other : ∀ p, previous = some p → p ≠ id) :
    (previous.elim s fun previous => s.amend (onGeneration previous fun g => { g with state := .ready })).amend
      (onGeneration id fun g => { g with state := .active, activatedAt := some now }) = s.amend (switched now id previous) := by
  cases previous with
  | none =>
    have same : onGeneration id (fun g => { g with state := .active, activatedAt := some now }) = switched now id none := by
      funext g
      simp [onGeneration, switched]
    exact congrArg s.amend same
  | some p =>
    have apart : p ≠ id := other p rfl
    simp only [GenerationStore.amend, Option.elim, List.map_map]
    refine congrArg (fun generations => { s with generations := generations }) (List.map_congr_left fun g _ => ?_)
    simp only [onGeneration, switched, Function.comp_apply]
    by_cases here : g.id = id
    · have elsewhere : g.id ≠ p := fun same => apart (same.symm.trans here)
      simp [here, Ne.symm apart]
    · by_cases there : g.id = p
      · simp [there, apart]
      · simp [here, there]

theorem activateGeneration_ok (done : activateGeneration s now id reason = .ok s') :
    ∃ g, s.find id = some g ∧ (g.state = .ready ∨ g.state = .active) ∧ g.expectedCount = g.embeddedCount ∧
      ∃ previous, previous = (s.generations.find? fun g => g.state == .active && g.id != id).map (·.id) ∧
        s' = { s.amend (switched now id previous) with activations := s.activations ++ [⟨id, previous, now, reason⟩] } := by
  unfold activateGeneration at done
  split at done
  · cases done
  · rename_i g found
    split at done
    · cases done
    · rename_i sealed
      split at done
      · cases done
      · rename_i covered
        cases done
        rw [not_or, not_not] at covered
        rw [not_and_or, not_not, not_not] at sealed
        refine ⟨g, found, sealed, covered.1, _, rfl, ?_⟩
        have other : ∀ p, (s.generations.find? fun g => g.state == .active && g.id != id).map (·.id) = some p → p ≠ id := by
          intro p first
          obtain ⟨q, here, rfl⟩ := Option.map_eq_some_iff.mp first
          have passes := List.find?_some here
          simp only [Bool.and_eq_true, bne_iff_ne] at passes
          exact passes.2
        rw [← displaced_activated other]

/-! ### The store after any calls -/

def GenerationStore.rowsOf (s : GenerationStore) (g : Generation) : List VectorRow := (s.tables g.vectorTable).getD []

/-- Sealed: verified, and activated or not. -/
def Generation.Sealed (g : Generation) : Prop := g.state = .ready ∨ g.state = .active

def AtMostOneActive (generations : List Generation) : Prop :=
  ∀ g ∈ generations, ∀ other ∈ generations, g.state = .active → other.state = .active → g.id = other.id

/-- What every call keeps. -/
structure GenerationStore.Coherent (s : GenerationStore) : Prop where
  ids : (s.generations.map (·.id)).Nodup
  apart : (s.generations.map (·.vectorTable)).Nodup
  stored : ∀ g ∈ s.generations, ∃ rows, s.tables g.vectorTable = some rows ∧ (rows.map (·.entityId)).Nodup
  owned : ∀ e ∈ s.entities, ∃ g ∈ s.generations, g.id = e.generationId
  recorded : ∀ g ∈ s.generations, ∀ row ∈ s.rowsOf g, ∃ e ∈ s.entities, e.generationId = g.id ∧ e.entityId = row.entityId
  healthy : ∀ e ∈ s.entities, e.state = .ready
  counted : ∀ g ∈ s.generations, g.embeddedCount = readyCount s.entities g.id
  active : AtMostOneActive s.generations

theorem GenerationStore.Coherent.same (coherent : s.Coherent) {g other : Generation} (here : g ∈ s.generations) (there : other ∈ s.generations)
    (named : g.id = other.id) : g = other := List.inj_on_of_nodup_map coherent.ids here there named

/-- A change of a generation that leaves what its vectors are found and counted by. -/
structure KeepsVectors (change : Generation → Generation) : Prop where
  id : ∀ g, (change g).id = g.id
  vectorTable : ∀ g, (change g).vectorTable = g.vectorTable
  embeddedCount : ∀ g, (change g).embeddedCount = g.embeddedCount

theorem amend_map {β : Type} {change : Generation → Generation} {f : Generation → β} (kept : ∀ g, f (change g) = f g) :
    (s.amend change).generations.map f = s.generations.map f := by
  rw [GenerationStore.amend, List.map_map]
  exact List.map_congr_left fun g _ => kept g

theorem GenerationStore.Coherent.amend (coherent : s.Coherent) {change : Generation → Generation} (keeps : KeepsVectors change)
    (active : AtMostOneActive (s.generations.map change)) : (s.amend change).Coherent where
  ids := by
    rw [amend_map keeps.id]
    exact coherent.ids
  apart := by
    rw [amend_map keeps.vectorTable]
    exact coherent.apart
  stored := by
    intro g member
    obtain ⟨old, here, rfl⟩ := List.mem_map.mp member
    rw [keeps.vectorTable]
    exact coherent.stored old here
  owned := by
    intro e member
    obtain ⟨g, here, named⟩ := coherent.owned e member
    exact ⟨change g, List.mem_map_of_mem here, (keeps.id g).trans named⟩
  recorded := by
    intro g member row
    obtain ⟨old, here, rfl⟩ := List.mem_map.mp member
    rw [GenerationStore.rowsOf, keeps.vectorTable, keeps.id]
    exact coherent.recorded old here row
  healthy := coherent.healthy
  counted := by
    intro g member
    obtain ⟨old, here, rfl⟩ := List.mem_map.mp member
    rw [keeps.embeddedCount, keeps.id]
    exact coherent.counted old here
  active := active

theorem keepsVectors_switched (now : String) (id : GenerationId) (previous : Option GenerationId) : KeepsVectors (switched now id previous) := by
  constructor
  all_goals
    intro g
    unfold switched
    split
    · rfl
    · split <;> rfl

theorem keepsVectors_marked (id : GenerationId) (hash : String) :
    KeepsVectors (onGeneration id fun g => { g with state := .ready, healthCheckHash := some hash }) := by
  constructor
  all_goals
    intro g
    unfold onGeneration
    split <;> rfl

/-- After an activation the generation is the only active one. -/
theorem switched_active (coherent : s.Coherent) {previous : Option GenerationId}
    (first : previous = (s.generations.find? fun g => g.state == .active && g.id != id).map (·.id)) :
    AtMostOneActive (s.generations.map (switched now id previous)) := by
  have only : ∀ g ∈ s.generations, (switched now id previous g).state = .active → g.id = id := by
    intro g here active
    by_cases same : g.id = id
    · exact same
    · exfalso
      simp only [switched, if_neg same] at active
      split at active
      · cases active
      · rename_i kept
        cases found : s.generations.find? fun g => g.state == .active && g.id != id with
        | none => exact absurd (List.find?_eq_none.mp found g here) (by simp [active, same])
        | some other =>
          have passes := List.find?_some found
          simp only [Bool.and_eq_true, beq_iff_eq] at passes
          rw [found] at first
          exact kept (first ▸ congrArg some (coherent.active g here other (List.mem_of_find?_eq_some found) active passes.1))
  intro g member other member' active active'
  obtain ⟨g, here, rfl⟩ := List.mem_map.mp member
  obtain ⟨other, there, rfl⟩ := List.mem_map.mp member'
  rw [(keepsVectors_switched now id previous).id, (keepsVectors_switched now id previous).id, only g here active, only other there active']

/-! ### A vector is written -/

theorem mem_putRow {rows : List VectorRow} {row x : VectorRow} : x ∈ putRow rows row ↔ x ∈ rows ∧ x.entityId ≠ row.entityId ∨ x = row := by
  simp [putRow]

/-- A row that is written again stays the only one of its entity. -/
theorem mem_putRow_again {rows : List VectorRow} {row x : VectorRow} (once : (rows.map (·.entityId)).Nodup) (again : row ∈ rows) :
    x ∈ putRow rows row ↔ x ∈ rows := by
  rw [mem_putRow]
  constructor
  · rintro (⟨here, _⟩ | rfl)
    · exact here
    · exact again
  · intro here
    by_cases same : x.entityId = row.entityId
    · exact .inr (List.inj_on_of_nodup_map once here again same)
    · exact .inl ⟨here, same⟩

theorem putRow_once {rows : List VectorRow} {row : VectorRow} (once : (rows.map (·.entityId)).Nodup) :
    ((putRow rows row).map (·.entityId)).Nodup := by
  rw [putRow, List.map_append, List.map_singleton, ← List.concat_eq_append]
  refine ((List.filter_sublist.map _).nodup once).concat fun member => ?_
  obtain ⟨x, kept, same⟩ := List.mem_map.mp member
  exact absurd same (by simpa using (List.mem_filter.mp kept).2)

variable {g : Generation} {rows : List VectorRow} {row : VectorRow}

/-- The generation after one of its vectors is written, or another one. -/
theorem mem_record {other : Generation} (member : other ∈ (s.record now g rows row).generations) :
    ∃ old ∈ s.generations, other.id = old.id ∧ other.vectorTable = old.vectorTable ∧ other.state = old.state ∧
      other.expectedCount = old.expectedCount ∧ other.healthCheckHash = old.healthCheckHash ∧
        other.embeddedCount = if old.id = g.id then readyCount (s.record now g rows row).entities g.id else old.embeddedCount := by
  obtain ⟨old, here, rfl⟩ := List.mem_map.mp member
  refine ⟨old, here, ?_⟩
  unfold onGeneration
  split
  · rename_i same
    refine ⟨rfl, rfl, rfl, rfl, rfl, ?_⟩
    show readyCount (s.record now g rows row).entities old.id = _
    rw [same]
  · exact ⟨rfl, rfl, rfl, rfl, rfl, rfl⟩

theorem mem_record_self (now : String) (rows : List VectorRow) (row : VectorRow) (here : g ∈ s.generations) :
    { g with embeddedCount := readyCount (s.record now g rows row).entities g.id } ∈ (s.record now g rows row).generations := by
  refine List.mem_map.mpr ⟨g, here, ?_⟩
  rw [onGeneration, if_pos rfl]
  rfl

theorem record_keys {β : Type} (f : Generation → β)
    (kept : ∀ old count, f { old with embeddedCount := count } = f old) :
    (s.record now g rows row).generations.map f = s.generations.map f := by
  simp only [GenerationStore.record, List.map_map]
  refine List.map_congr_left fun old _ => ?_
  simp only [Function.comp_apply, onGeneration]
  split
  · exact kept old _
  · rfl

/-- Only the rows of the generation change. -/
theorem rowsOf_record (coherent : s.Coherent) (here : g ∈ s.generations) {old other : Generation} (there : old ∈ s.generations)
    (table : other.vectorTable = old.vectorTable) :
    (s.record now g rows row).rowsOf other = if old.id = g.id then putRow rows row else s.rowsOf old := by
  unfold GenerationStore.rowsOf GenerationStore.record
  dsimp only
  rw [table]
  by_cases same : old.id = g.id
  · rw [if_pos same, coherent.same there here same, Function.update_self]
    rfl
  · have elsewhere : old.vectorTable ≠ g.vectorTable := by
      intro shared
      exact same (congrArg _ (List.inj_on_of_nodup_map coherent.apart there here shared))
    rw [if_neg same, Function.update_of_ne elsewhere]

theorem mem_record_entities {e : GenerationEntity} : e ∈ (s.record now g rows row).entities ↔
    e ∈ s.entities ∧ e.key ≠ (g.id, row.entityId) ∨ e = ⟨g.id, row.entityId, row.sourceHash, row.vectorChecksum, .ready, now⟩ := by
  unfold GenerationStore.record Dictionary.assign
  rw [Dictionary.mem_adjust]
  constructor
  · rintro (kept | ⟨_, _, _, rfl⟩ | ⟨_, rfl⟩)
    · exact .inl kept
    · exact .inr rfl
    · exact .inr rfl
  · rintro (kept | rfl)
    · exact .inl kept
    · by_cases known : ∃ a ∈ s.entities, a.key = (g.id, row.entityId)
      · obtain ⟨a, here, named⟩ := known
        exact .inr (.inl ⟨a, here, named, rfl⟩)
      · exact .inr (.inr ⟨fun a here named => known ⟨a, here, named⟩, rfl⟩)

/-- The count of a generation changes only where one of its entities is new. -/
theorem readyCount_record (coherent : s.Coherent) (counted : GenerationId)
    (held : counted ≠ g.id ∨ ∃ e ∈ s.entities, e.key = (g.id, row.entityId)) :
    readyCount (s.record now g rows row).entities counted = readyCount s.entities counted := by
  refine Dictionary.countP_assign ?_ ?_
  · intro e here same
    have owner : e.generationId = g.id := congrArg Prod.fst same
    simp only [owner, coherent.healthy e here]
  · refine held.imp (fun apart => ?_) fun known => known
    simp [Ne.symm apart]

theorem GenerationStore.Coherent.record (coherent : s.Coherent) (here : g ∈ s.generations) (stored : s.tables g.vectorTable = some rows) :
    (s.record now g rows row).Coherent where
  ids := by
    rw [record_keys]
    · exact coherent.ids
    · exact fun _ _ => rfl
  apart := by
    rw [record_keys]
    · exact coherent.apart
    · exact fun _ _ => rfl
  stored := by
    intro other member
    obtain ⟨old, there, _, table, _⟩ := mem_record member
    obtain ⟨held, found, once⟩ := coherent.stored old there
    rw [table]
    by_cases same : old.vectorTable = g.vectorTable
    · rw [same, stored] at found
      obtain rfl := Option.some.inj found
      exact ⟨putRow rows row, by rw [same]; exact Function.update_self _ _ _, putRow_once once⟩
    · exact ⟨held, (Function.update_of_ne same _ _).trans found, once⟩
  owned := by
    intro e member
    have owner : ∃ old ∈ s.generations, old.id = e.generationId := by
      rcases mem_record_entities.mp member with ⟨old, _⟩ | rfl
      · exact coherent.owned e old
      · exact ⟨g, here, rfl⟩
    have ids : (s.record now g rows row).generations.map (·.id) = s.generations.map (·.id) := record_keys _ fun _ _ => rfl
    rw [← List.mem_map, ids, List.mem_map]
    exact owner
  recorded := by
    intro other member x listed
    obtain ⟨old, there, named, table, _⟩ := mem_record member
    rw [rowsOf_record coherent here there table] at listed
    rw [named]
    have kept : ∀ e ∈ s.entities, ∃ e' ∈ (s.record now g rows row).entities, e'.key = e.key := by
      intro e known
      by_cases same : e.key = (g.id, row.entityId)
      · exact ⟨_, mem_record_entities.mpr (.inr rfl), same.symm⟩
      · exact ⟨e, mem_record_entities.mpr (.inl ⟨known, same⟩), rfl⟩
    have before : x ∈ s.rowsOf old → ∃ e ∈ (s.record now g rows row).entities, e.generationId = old.id ∧ e.entityId = x.entityId := by
      intro listed
      obtain ⟨e, known, owner, entity⟩ := coherent.recorded old there x listed
      obtain ⟨e', known', same⟩ := kept e known
      exact ⟨e', known', (congrArg Prod.fst same).trans owner, (congrArg Prod.snd same).trans entity⟩
    by_cases same : old.id = g.id
    · rw [if_pos same] at listed
      rcases mem_putRow.mp listed with ⟨listed, _⟩ | rfl
      · refine before ?_
        rw [coherent.same there here same, GenerationStore.rowsOf, stored]
        exact listed
      · exact ⟨_, mem_record_entities.mpr (.inr rfl), same.symm, rfl⟩
    · rw [if_neg same] at listed
      exact before listed
  healthy := by
    intro e member
    rcases mem_record_entities.mp member with ⟨old, _⟩ | rfl
    · exact coherent.healthy e old
    · rfl
  counted := by
    intro other member
    obtain ⟨old, there, named, _, _, _, _, count⟩ := mem_record member
    rw [count, named]
    by_cases same : old.id = g.id
    · rw [if_pos same, same]
    · rw [if_neg same, readyCount_record coherent _ (.inl same)]
      exact coherent.counted old there
  active := by
    intro first member second member' active active'
    obtain ⟨old, there, named, _, state, _⟩ := mem_record member
    obtain ⟨old', there', named', _, state', _⟩ := mem_record member'
    rw [named, named']
    exact coherent.active old there old' there' (state.symm.trans active) (state'.symm.trans active')

/-! ### A generation is added -/

def GenerationStore.add (s : GenerationStore) (g : Generation) : GenerationStore :=
  { s with generations := s.generations ++ [g], tables := Function.update s.tables g.vectorTable (some []) }

theorem addedTable_rowsOf {old : Generation} (coherent : s.Coherent) (fresh : s.tables g.vectorTable = none) (here : old ∈ s.generations) :
    (s.add g).rowsOf old = s.rowsOf old := by
  obtain ⟨rows, found, _⟩ := coherent.stored old here
  have elsewhere : old.vectorTable ≠ g.vectorTable := by
    intro shared
    rw [shared, fresh] at found
    cases found
  simp only [GenerationStore.rowsOf, GenerationStore.add, Function.update_of_ne elsewhere]

theorem GenerationStore.Coherent.add (coherent : s.Coherent) (new : ∀ old ∈ s.generations, old.id ≠ g.id) (fresh : s.tables g.vectorTable = none)
    (building : g.state = .building) (empty : g.embeddedCount = 0) : (s.add g).Coherent where
  ids := by
    rw [GenerationStore.add, List.map_append, List.map_singleton, ← List.concat_eq_append]
    refine coherent.ids.concat fun member => ?_
    obtain ⟨old, here, same⟩ := List.mem_map.mp member
    exact new old here same
  apart := by
    rw [GenerationStore.add, List.map_append, List.map_singleton, ← List.concat_eq_append]
    refine coherent.apart.concat fun member => ?_
    obtain ⟨old, here, same⟩ := List.mem_map.mp member
    obtain ⟨rows, found, _⟩ := coherent.stored old here
    rw [same, fresh] at found
    cases found
  stored := by
    intro other member
    rcases List.mem_append.mp member with old | added
    · obtain ⟨rows, found, once⟩ := coherent.stored other old
      have elsewhere : other.vectorTable ≠ g.vectorTable := by
        intro shared
        rw [shared, fresh] at found
        cases found
      exact ⟨rows, (Function.update_of_ne elsewhere _ _).trans found, once⟩
    · obtain rfl := List.mem_singleton.mp added
      exact ⟨[], Function.update_self _ _ _, List.nodup_nil⟩
  owned := by
    intro e member
    obtain ⟨old, here, named⟩ := coherent.owned e member
    exact ⟨old, List.mem_append_left _ here, named⟩
  recorded := by
    intro other member row listed
    rcases List.mem_append.mp member with old | added
    · rw [addedTable_rowsOf coherent fresh old] at listed
      exact coherent.recorded other old row listed
    · obtain rfl := List.mem_singleton.mp added
      simp [GenerationStore.rowsOf, GenerationStore.add] at listed
  healthy := coherent.healthy
  counted := by
    intro other member
    rcases List.mem_append.mp member with old | added
    · exact coherent.counted other old
    · obtain rfl := List.mem_singleton.mp added
      rw [empty]
      refine (List.countP_eq_zero.mpr fun e known => ?_).symm
      obtain ⟨old, here, named⟩ := coherent.owned e known
      simp [← named, new old here]
  active := by
    have waiting : ∀ other ∈ s.generations ++ [g], other.state = .active → other ∈ s.generations := by
      intro other member active
      refine (List.mem_append.mp member).resolve_right fun added => ?_
      rw [List.mem_singleton.mp added, building] at active
      cases active
    intro first member second member' active active'
    exact coherent.active first (waiting first member active) second (waiting second member' active') active active'

end SaltMdb
