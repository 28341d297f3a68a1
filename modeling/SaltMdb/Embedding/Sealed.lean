import SaltMdb.Embedding.Generations
import SaltMdb.Library.Runs

/-! Runs of the calls on generations: what was verified stays where no later write reaches it. -/

namespace SaltMdb

variable {ν : Type} {env : GenerationEnv ν} {s s' : GenerationStore} {now table checksum entityId sourceHash hash reason : String}
  {id : GenerationId} {spec : GenerationSpec} {expectedCount : Int} {vector : List ν} {g : Generation} {rows : List VectorRow} {row : VectorRow}

/-! ### Runs of calls -/

inductive GenerationCall (ν : Type) where
  | register (now : String) (id : GenerationId) (spec : GenerationSpec) (expectedCount : Int)
  | record (now : String) (id : GenerationId) (entityId sourceHash : String) (vector : List ν)
  | markReady (id : GenerationId) (healthCheckHash : String)
  | activate (now : String) (id : GenerationId) (reason : String)

variable (env) in
def GenerationCall.run (s : GenerationStore) : GenerationCall ν → Except String GenerationStore
  | .register now id spec expectedCount => (registerGeneration env s now id spec expectedCount).map (·.2)
  | .record now id entityId sourceHash vector => (recordGenerationVector env s now id entityId sourceHash vector).map (·.2)
  | .markReady id hash => markGenerationReady s id hash
  | .activate now id reason => activateGeneration s now id reason

/-- What a health check hash was accepted for. -/
structure Sealing where
  generationId : GenerationId
  healthCheckHash : String
  rows : List VectorRow

def GenerationStore.rowsAt (s : GenerationStore) (id : GenerationId) : List VectorRow := (s.find id).elim [] s.rowsOf

/-- An accepted call to seal is noted with the rows that are there. -/
def GenerationCall.sealings (s : GenerationStore) : GenerationCall ν → List Sealing
  | .markReady id hash => [⟨id, hash, s.rowsAt id⟩]
  | _ => []

/-- The store, and what was sealed so far. -/
structure SealedStore where
  store : GenerationStore
  sealings : List Sealing

def SealedStore.empty : SealedStore := ⟨.empty, []⟩

variable (env) in
def SealedStore.next (v : SealedStore) (call : GenerationCall ν) : SealedStore :=
  match call.run env v.store with
  | .ok store => ⟨store, v.sealings ++ call.sealings v.store⟩
  | .error _ => v

theorem store_of_ok {answer : Except String (String × GenerationStore)} (done : answer.map (·.2) = .ok s') : ∃ text, answer = .ok (text, s') := by
  cases answer with
  | error message => cases done
  | ok both =>
    cases done
    exact ⟨both.1, rfl⟩

theorem GenerationCall.run_coherent {call : GenerationCall ν} (coherent : s.Coherent) (done : call.run env s = .ok s') : s'.Coherent := by
  cases call with
  | register now id spec expectedCount =>
    obtain ⟨table, registered⟩ := store_of_ok done
    rcases registerGeneration_ok registered with rfl | ⟨new, fresh, g, rfl, rfl, building, empty, rfl⟩
    · exact coherent
    · exact coherent.add new fresh building empty
  | record now id entityId sourceHash vector =>
    obtain ⟨checksum, recorded⟩ := store_of_ok done
    obtain ⟨g, found, _, _, rows, stored, _, rfl⟩ := recordGenerationVector_ok.mp recorded
    exact coherent.record (GenerationStore.find_some found).1 stored
  | markReady id hash =>
    obtain ⟨g, found, building, _, rfl⟩ := markGenerationReady_ok done
    refine coherent.amend (keepsVectors_marked id hash) ?_
    have before : ∀ other ∈ s.generations, (onGeneration id (fun g => { g with state := .ready, healthCheckHash := some hash }) other).state = .active →
        other.state = .active := by
      intro other _ active
      unfold onGeneration at active
      split at active
      · cases active
      · exact active
    intro first member second member' active active'
    obtain ⟨old, here, rfl⟩ := List.mem_map.mp member
    obtain ⟨old', here', rfl⟩ := List.mem_map.mp member'
    rw [(keepsVectors_marked id hash).id, (keepsVectors_marked id hash).id]
    exact coherent.active old here old' here' (before old here active) (before old' here' active')
  | activate now id reason =>
    obtain ⟨g, found, _, _, previous, first, rfl⟩ := activateGeneration_ok done
    have amended := coherent.amend (keepsVectors_switched now id previous) (switched_active coherent first)
    exact ⟨amended.ids, amended.apart, amended.stored, amended.owned, amended.recorded, amended.healthy, amended.counted, amended.active⟩

/-! ### What was sealed stays -/

/-- Ready and active generations are covered, and hold the rows that their health check hash was accepted for. -/
structure KeptSealed (v : SealedStore) : Prop where
  active : AtMostOneActive v.store.generations
  covered : ∀ g ∈ v.store.generations, g.Sealed → g.expectedCount = g.embeddedCount
  once : (v.sealings.map (·.generationId)).Nodup
  rows : ∀ g ∈ v.store.generations, g.Sealed → ∃ sealing ∈ v.sealings, sealing.generationId = g.id ∧
    g.healthCheckHash = some sealing.healthCheckHash ∧ ∀ row, row ∈ v.store.rowsOf g ↔ row ∈ sealing.rows

/-- What holds whatever is called: a generation is sealed once, and never built again. -/
structure SealedStore.Sound (v : SealedStore) : Prop where
  store : v.store.Coherent
  once : (v.sealings.map (·.generationId)).Nodup
  sealed : ∀ sealing ∈ v.sealings, ∃ g ∈ v.store.generations, g.id = sealing.generationId ∧ g.Sealed

variable (env) in
/-- A vector that is accepted for a ready generation is the one that the generation has of its entity. -/
def GenerationCall.LeavesSealed (call : GenerationCall ν) (v : SealedStore) : Prop :=
  match call with
  | .record _ id entityId sourceHash vector => ∀ g, v.store.find id = some g → g.state = .ready → vector.length = g.spec.dimension →
      vectorRow env entityId sourceHash vector ∈ v.store.rowsOf g
  | _ => True

theorem SealedStore.next_cases (env : GenerationEnv ν) (v : SealedStore) (call : GenerationCall ν) :
    v.next env call = v ∨ ∃ store, call.run env v.store = .ok store ∧ v.next env call = ⟨store, v.sealings ++ call.sealings v.store⟩ := by
  unfold SealedStore.next
  cases done : call.run env v.store with
  | error message => exact .inl rfl
  | ok store => exact .inr ⟨store, rfl, rfl⟩

theorem keepsSealed_switched (now : String) (id : GenerationId) (previous : Option GenerationId) (sealed : g.Sealed) :
    (switched now id previous g).Sealed := by
  unfold switched
  split
  · exact .inr rfl
  · split
    · exact .inl rfl
    · exact sealed

theorem keepsSealed_marked (id : GenerationId) (hash : String) (sealed : g.Sealed) :
    (onGeneration id (fun g => { g with state := .ready, healthCheckHash := some hash }) g).Sealed := by
  unfold onGeneration
  split
  · exact .inl rfl
  · exact sealed

/-- No call takes a seal away. -/
theorem GenerationCall.run_sealed {call : GenerationCall ν} (done : call.run env s = .ok s') :
    ∀ g ∈ s.generations, g.Sealed → ∃ g' ∈ s'.generations, g'.id = g.id ∧ g'.Sealed := by
  intro g here sealed
  cases call with
  | register now id spec expectedCount =>
    obtain ⟨table, registered⟩ := store_of_ok done
    rcases registerGeneration_ok registered with rfl | ⟨_, _, _, _, _, _, _, rfl⟩
    · exact ⟨g, here, rfl, sealed⟩
    · exact ⟨g, List.mem_append_left _ here, rfl, sealed⟩
  | record now id entityId sourceHash vector =>
    obtain ⟨checksum, recorded⟩ := store_of_ok done
    obtain ⟨written, _, _, _, rows, _, _, rfl⟩ := recordGenerationVector_ok.mp recorded
    refine ⟨_, List.mem_map_of_mem here, ?_⟩
    unfold onGeneration
    split
    · exact ⟨rfl, sealed⟩
    · exact ⟨rfl, sealed⟩
  | markReady id hash =>
    obtain ⟨_, _, _, _, rfl⟩ := markGenerationReady_ok done
    exact ⟨_, List.mem_map_of_mem here, (keepsVectors_marked id hash).id g, keepsSealed_marked id hash sealed⟩
  | activate now id reason =>
    obtain ⟨_, _, _, _, previous, _, rfl⟩ := activateGeneration_ok done
    exact ⟨_, List.mem_map_of_mem here, (keepsVectors_switched now id previous).id g, keepsSealed_switched now id previous sealed⟩

theorem Generation.Sealed.not_building (sealed : g.Sealed) : g.state ≠ .building := by
  intro building
  rcases sealed with ready | active
  · exact absurd (building.symm.trans ready) (by decide)
  · exact absurd (building.symm.trans active) (by decide)

theorem SealedStore.Sound.next {v : SealedStore} (sound : v.Sound) (env : GenerationEnv ν) (call : GenerationCall ν) : (v.next env call).Sound := by
  rcases v.next_cases env call with same | ⟨store, done, same⟩
  · exact same.symm ▸ sound
  · rw [same]
    have kept : ∀ sealing ∈ v.sealings, ∃ g ∈ store.generations, g.id = sealing.generationId ∧ g.Sealed := by
      intro sealing noted
      obtain ⟨g, here, named, sealed⟩ := sound.sealed sealing noted
      obtain ⟨g', here', same, sealed'⟩ := GenerationCall.run_sealed done g here sealed
      exact ⟨g', here', same.trans named, sealed'⟩
    cases call with
    | markReady id hash =>
      obtain ⟨g, found, building, _, rfl⟩ := markGenerationReady_ok done
      obtain ⟨here, rfl⟩ := GenerationStore.find_some found
      refine ⟨@GenerationCall.run_coherent ν env _ _ _ sound.store done, ?_, ?_⟩
      · simp only [GenerationCall.sealings, List.map_append, List.map_cons, List.map_nil]
        rw [← List.concat_eq_append]
        refine sound.once.concat fun member => ?_
        obtain ⟨sealing, noted, named⟩ := List.mem_map.mp member
        obtain ⟨other, there, named', sealed⟩ := sound.sealed sealing noted
        exact sealed.not_building (sound.store.same there here (named'.trans named) ▸ building)
      · intro sealing noted
        rcases List.mem_append.mp noted with old | new
        · exact kept sealing old
        · rw [List.mem_singleton.mp new]
          refine ⟨_, List.mem_map_of_mem here, (keepsVectors_marked g.id hash).id g, ?_⟩
          unfold onGeneration
          rw [if_pos rfl]
          exact .inl rfl
    | _ =>
      show (SealedStore.mk store (v.sealings ++ [])).Sound
      rw [List.append_nil]
      exact ⟨GenerationCall.run_coherent sound.store done, sound.once, kept⟩

/-- Every sealed generation after a call was sealed before it, with the same counts, hash and rows. -/
structure Unaltered (s s' : GenerationStore) (g' : Generation) : Prop where
  before : ∃ g ∈ s.generations, g.Sealed ∧ g'.id = g.id ∧ g'.expectedCount = g.expectedCount ∧ g'.embeddedCount = g.embeddedCount ∧
    g'.healthCheckHash = g.healthCheckHash ∧ ∀ row, row ∈ s'.rowsOf g' ↔ row ∈ s.rowsOf g

theorem KeptSealed.covered_of {v : SealedStore} (kept : KeptSealed v) {g' : Generation} (unaltered : Unaltered v.store s g') :
    g'.expectedCount = g'.embeddedCount := by
  obtain ⟨g, here, sealed, _, expected, embedded, _⟩ := unaltered.before
  rw [expected, embedded]
  exact kept.covered g here sealed

theorem KeptSealed.rows_of {v : SealedStore} (kept : KeptSealed v) {g' : Generation} (unaltered : Unaltered v.store s g') :
    ∃ sealing ∈ v.sealings, sealing.generationId = g'.id ∧ g'.healthCheckHash = some sealing.healthCheckHash ∧
      ∀ row, row ∈ s.rowsOf g' ↔ row ∈ sealing.rows := by
  obtain ⟨g, here, sealed, named, _, _, hash, rows⟩ := unaltered.before
  obtain ⟨sealing, noted, named', hash', rows'⟩ := kept.rows g here sealed
  exact ⟨sealing, noted, named'.trans named.symm, hash.trans hash', fun row => (rows row).trans (rows' row)⟩

theorem unaltered_same (here : g ∈ s.generations) (sealed : g.Sealed) : Unaltered s s g :=
  ⟨g, here, sealed, rfl, rfl, rfl, rfl, fun _ => Iff.rfl⟩

theorem unaltered_register (coherent : s.Coherent) (done : registerGeneration env s now id spec expectedCount = .ok (table, s')) {g' : Generation}
    (member : g' ∈ s'.generations) (sealed : g'.Sealed) : Unaltered s s' g' := by
  rcases registerGeneration_ok done with rfl | ⟨_, fresh, g, _, rfl, building, _, rfl⟩
  · exact unaltered_same member sealed
  · rcases List.mem_append.mp member with old | added
    · refine ⟨g', old, sealed, rfl, rfl, rfl, rfl, fun row => ?_⟩
      have same := addedTable_rowsOf coherent fresh old
      rw [GenerationStore.add] at same
      rw [same]
    · rw [List.mem_singleton.mp added] at sealed
      exact absurd building sealed.not_building

theorem unaltered_activate (coherent : s.Coherent) (done : activateGeneration s now id reason = .ok s') {g' : Generation}
    (member : g' ∈ s'.generations) : Unaltered s s' g' ∨ ¬ g'.Sealed := by
  obtain ⟨chosen, found, ready, _, previous, first, rfl⟩ := activateGeneration_ok done
  obtain ⟨there, named⟩ := GenerationStore.find_some found
  obtain ⟨g, here, rfl⟩ := List.mem_map.mp member
  by_cases sealed : g.Sealed
  · refine .inl ⟨g, here, sealed, (keepsVectors_switched now id previous).id g, ?_, (keepsVectors_switched now id previous).embeddedCount g, ?_, fun row => ?_⟩
    · unfold switched
      split
      · rfl
      · split <;> rfl
    · unfold switched
      split
      · rfl
      · split <;> rfl
    · unfold GenerationStore.rowsOf
      rw [(keepsVectors_switched now id previous).vectorTable]
      rfl
  · refine .inr fun sealed' => sealed ?_
    by_cases same : g.id = id
    · exact coherent.same there here (named.trans same.symm) ▸ ready
    · rw [switched, if_neg same] at sealed'
      split at sealed'
      · rename_i displaced
        rw [first] at displaced
        obtain ⟨other, active, named'⟩ := Option.map_eq_some_iff.mp displaced.symm
        have passes := List.find?_some active
        simp only [Bool.and_eq_true, beq_iff_eq] at passes
        exact coherent.same (List.mem_of_find?_eq_some active) here named' ▸ .inr passes.1
      · exact sealed'

theorem unaltered_mark (done : markGenerationReady s id hash = .ok s') {g' : Generation} (member : g' ∈ s'.generations) (other : g'.id ≠ id)
    (sealed : g'.Sealed) : Unaltered s s' g' := by
  obtain ⟨_, _, _, _, rfl⟩ := markGenerationReady_ok done
  obtain ⟨g, here, rfl⟩ := List.mem_map.mp member
  rw [(keepsVectors_marked id hash).id] at other
  have same : onGeneration id (fun g => { g with state := .ready, healthCheckHash := some hash }) g = g := if_neg other
  rw [same] at sealed ⊢
  exact ⟨g, here, sealed, rfl, rfl, rfl, rfl, fun _ => Iff.rfl⟩

/-- A vector leaves the sealed generations alone if it goes to one that is building, or is there already. -/
theorem unaltered_record (coherent : s.Coherent) (here : g ∈ s.generations) (stored : s.tables g.vectorTable = some rows)
    (again : g.state = .ready → row ∈ rows) (writable : g.state = .building ∨ g.state = .ready) {g' : Generation}
    (member : g' ∈ (s.record now g rows row).generations) (sealed : g'.Sealed) : Unaltered s (s.record now g rows row) g' := by
  obtain ⟨old, there, named, table, state, expected, hash, embedded⟩ := mem_record member
  have sealedBefore : old.Sealed := by
    unfold Generation.Sealed at sealed
    rwa [state] at sealed
  refine ⟨old, there, sealedBefore, named, expected, ?_, hash, fun x => ?_⟩
  · rw [embedded]
    split
    · rename_i same
      have present := again <| writable.resolve_left fun building => sealedBefore.not_building (coherent.same there here same ▸ building)
      have listed : row ∈ s.rowsOf g := by
        rw [GenerationStore.rowsOf, stored]
        exact present
      obtain ⟨e, known, owner, entity⟩ := coherent.recorded g here row listed
      rw [readyCount_record coherent _ (.inr ⟨e, known, Prod.ext owner entity⟩), coherent.counted old there, same]
    · rfl
  · rw [rowsOf_record coherent here there table]
    split
    · rename_i same
      obtain rfl := coherent.same there here same
      have present := again <| writable.resolve_left sealedBefore.not_building
      obtain ⟨held, found, once⟩ := coherent.stored old there
      rw [stored] at found
      obtain rfl := Option.some.inj found
      rw [mem_putRow_again once present, GenerationStore.rowsOf, stored]
      rfl
    · exact Iff.rfl

/-- Around a call that leaves the sealed generations alone nothing that was sealed is lost. -/
theorem KeptSealed.next {v : SealedStore} {call : GenerationCall ν} (sound : v.Sound) (kept : KeptSealed v) (leaves : call.LeavesSealed env v) :
    KeptSealed (v.next env call) := by
  have after := sound.next env call
  rcases v.next_cases env call with same | ⟨store, done, same⟩
  · exact same.symm ▸ kept
  · rw [same] at after ⊢
    have unnoted : call.sealings v.store = [] → (∀ g ∈ store.generations, g.Sealed → Unaltered v.store store g) →
        KeptSealed ⟨store, v.sealings ++ call.sealings v.store⟩ := by
      intro none_ unaltered
      refine ⟨after.store.active, fun g member sealed => kept.covered_of (unaltered g member sealed), after.once, fun g member sealed => ?_⟩
      rw [none_, List.append_nil]
      exact kept.rows_of (unaltered g member sealed)
    cases call with
    | register now id spec expectedCount =>
      obtain ⟨table, registered⟩ := store_of_ok done
      exact unnoted rfl fun g member sealed => unaltered_register sound.store registered member sealed
    | record now id entityId sourceHash vector =>
      obtain ⟨checksum, recorded⟩ := store_of_ok done
      obtain ⟨g, found, writable, fits, rows, stored, _, rfl⟩ := recordGenerationVector_ok.mp recorded
      refine unnoted rfl fun g' member sealed => ?_
      refine unaltered_record sound.store (GenerationStore.find_some found).1 stored (fun ready => ?_) writable member sealed
      have present := leaves g found ready fits
      rwa [GenerationStore.rowsOf, stored] at present
    | activate now id reason =>
      exact unnoted rfl fun g member sealed => (unaltered_activate sound.store done member).resolve_right (not_not.mpr sealed)
    | markReady id hash =>
      obtain ⟨marked, found, building, covered, amended⟩ := markGenerationReady_ok done
      obtain ⟨here, named⟩ := GenerationStore.find_some found
      have noted : (GenerationCall.markReady (ν := ν) id hash).sealings v.store = [⟨id, hash, v.store.rowsOf marked⟩] := by
        simp only [GenerationCall.sealings, GenerationStore.rowsAt, found, Option.elim]
      rw [noted] at after ⊢
      have new : ∀ g ∈ store.generations, g.id = id →
          g = { marked with state := .ready, healthCheckHash := some hash } := by
        intro g member same
        rw [amended] at member
        obtain ⟨old, there, rfl⟩ := List.mem_map.mp member
        rw [(keepsVectors_marked id hash).id] at same
        rw [onGeneration, if_pos same, sound.store.same there here (same.trans named.symm)]
      refine ⟨after.store.active, fun g member sealed => ?_, after.once, fun g member sealed => ?_⟩
      · by_cases same : g.id = id
        · rw [new g member same]
          exact covered
        · exact kept.covered_of (unaltered_mark done member same sealed)
      · by_cases same : g.id = id
        · refine ⟨_, List.mem_append_right _ (List.mem_singleton_self _), same.symm, ?_, fun row => ?_⟩
          · rw [new g member same]
          · rw [new g member same, amended]
            exact Iff.rfl
        · obtain ⟨sealing, old, rest⟩ := kept.rows_of (unaltered_mark done member same sealed)
          exact ⟨sealing, List.mem_append_left _ old, rest⟩

/-- A vector that is new to a ready generation is not among the rows that were sealed. -/
theorem KeptSealed.leaves {v : SealedStore} {call : GenerationCall ν} (sound : v.Sound) (kept : KeptSealed v)
    (kept' : KeptSealed (v.next env call)) : call.LeavesSealed env v := by
  cases call with
  | record now id entityId sourceHash vector =>
    intro g found ready fits
    obtain ⟨here, rfl⟩ := GenerationStore.find_some found
    obtain ⟨rows, stored, _⟩ := sound.store.stored g here
    have recorded : recordGenerationVector env v.store now g.id entityId sourceHash vector = .ok (_, _) :=
      recordGenerationVector_ok.mpr ⟨g, found, .inr ready, fits, rows, stored, rfl, rfl⟩
    have after : v.next env (.record now g.id entityId sourceHash vector) =
        ⟨v.store.record now g rows (vectorRow env entityId sourceHash vector), v.sealings⟩ := by
      simp only [SealedStore.next, GenerationCall.run, recorded, Except.map, GenerationCall.sealings, List.append_nil]
    rw [after] at kept'
    have member := mem_record_self now rows (vectorRow env entityId sourceHash vector) here
    obtain ⟨sealing, noted, named, _, same⟩ := kept.rows g here (.inl ready)
    obtain ⟨sealing', noted', named', _, same'⟩ := kept'.rows _ member (.inl ready)
    obtain rfl : sealing = sealing' := List.inj_on_of_nodup_map sound.once noted noted' (named.trans named'.symm)
    rw [same, ← same']
    dsimp only
    rw [rowsOf_record sound.store here here (by rfl), if_pos rfl]
    exact mem_putRow.mpr (.inr rfl)
  | _ => trivial

theorem sound_empty : SealedStore.empty.Sound where
  store := by
    have none_ : ∀ g : Generation, g ∉ SealedStore.empty.store.generations := fun _ => List.not_mem_nil
    have unwritten : ∀ e : GenerationEntity, e ∉ SealedStore.empty.store.entities := fun _ => List.not_mem_nil
    constructor
    case ids => exact List.nodup_nil
    case apart => exact List.nodup_nil
    case stored => exact fun g member => absurd member (none_ g)
    case owned => exact fun e member => absurd member (unwritten e)
    case recorded => exact fun g member => absurd member (none_ g)
    case healthy => exact fun e member => absurd member (unwritten e)
    case counted => exact fun g member => absurd member (none_ g)
    case active => exact fun g member => absurd member (none_ g)
  once := List.nodup_nil
  sealed := fun _ noted => absurd noted List.not_mem_nil

theorem keptSealed_empty : KeptSealed .empty where
  active := fun _ member => absurd member List.not_mem_nil
  covered := fun _ member => absurd member List.not_mem_nil
  once := List.nodup_nil
  rows := fun _ member => absurd member List.not_mem_nil

/-- Every state of a run keeps what was sealed exactly where no call writes a new vector into a ready generation. -/
theorem generations_sealed_iff (env : GenerationEnv ν) (calls : List (GenerationCall ν)) :
    (∀ v ∈ Runs.states (SealedStore.next env) calls .empty, KeptSealed v) ↔
      Runs.Guarded (SealedStore.next env) (GenerationCall.LeavesSealed env) calls .empty :=
  Runs.states_iff_guarded (fun _ call sound => sound.next env call)
    (fun _ _ sound kept => ⟨kept.leaves sound, kept.next sound⟩) sound_empty keptSealed_empty

/-! ### A vector for a generation that was verified -/

/-- Bytes for vectors and lengths for checksums. -/
def GenerationEnv.bytes : GenerationEnv UInt8 := ⟨fun spec => spec.modelId, fun id => id, fun vector => vector, fun blob => toString blob.length⟩

def smallSpec : GenerationSpec := ⟨"model-a", "revision-1", 1, "query: ", "passage: ", "l2", "body", "manifest", by decide⟩

/-- One entity is embedded, the generation is verified, and then a second entity is embedded. -/
def lateVector : List (GenerationCall UInt8) :=
  [.register "1" "g1" smallSpec 1, .record "2" "g1" "one" "source-one" [1], .markReady "g1" "health", .record "3" "g1" "two" "source-two" [2]]

theorem lateVector_unsealed : ¬ ∀ v ∈ Runs.states (SealedStore.next .bytes) lateVector .empty, KeptSealed v := by
  intro all
  have last : (lateVector.foldl (SealedStore.next .bytes) .empty) ∈ Runs.states (SealedStore.next .bytes) lateVector .empty := by
    simp [lateVector, Runs.states]
  have counts : (lateVector.foldl (SealedStore.next .bytes) .empty).store.generations.map (fun g => (g.state, g.expectedCount, g.embeddedCount)) =
      [(.ready, 1, 2)] := by rfl
  obtain ⟨g, only⟩ := List.map_eq_singleton_iff.mp counts
  obtain ⟨alone, same⟩ := only
  simp only [Prod.mk.injEq] at same
  have covered := (all _ last).covered g (alone ▸ List.mem_singleton_self g) (.inl same.1)
  omega

end SaltMdb
