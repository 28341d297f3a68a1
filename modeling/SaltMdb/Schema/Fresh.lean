import SaltMdb.Relation.Vocabulary

/-! What `init_db` leaves in an empty file, and an environment to run the services in. -/

namespace SaltMdb

def seedPredicates : List PredicateRow :=
  (agentSelectablePredicates ++ reservedPredicates.map (·.1) ++ legacyReadonlyPredicates).map
      (fun name => ⟨name, name, none⟩) ++
    predicateAliases.map fun entry => ⟨entry.name, entry.name, some entry.canonical⟩

def TagTable.seed : TagTable where
  tags := [⟨0, "episodic", some "episodic", none⟩, ⟨1, "semantic", some "semantic", none⟩,
    ⟨2, "procedural", some "procedural", none⟩]
  next := 3
  links := []
  below := by decide
  distinct := by decide
  names := by decide

def Db.init : Db where
  entities := .empty
  relations := .empty
  predicates := seedPredicates
  tags := .seed
  events := []
  embeddingJobs := []

def freshWorld : Transactions.World Db Supply := ⟨.init, ⟨0, 0⟩⟩

/-- An ordinary shared memory. -/
def memoryRow (id : EntityId) (title content : String) : Entity where
  id := id
  createdAt := 0
  updatedAt := 0
  agentId := some "agent"
  contextId := none
  scope := .shared
  status := .raw
  title := title
  fullContent := content
  contentHash := content
  memoryType := .fact
  parentIds := []
  metadata := []
  retrievalText := none
  isCore := false
  coreReason := none
  coreExitCondition := none
  coreReviewAfter := none
  coreDetailMemoryIds := []
  coreReviewRationale := none

def pairDb : Db :=
  { Db.init with entities := ⟨[memoryRow "first" "First" "first", memoryRow "second" "Second" "second"], by decide⟩ }

def padded (width n : Nat) : String :=
  let digits := (toString n).toList
  .ofList (List.replicate (width - digits.length) '0' ++ digits)

/-- A clock that ticks in seconds, ids in the UUID shape, and a model that finds all contents alike. -/
def Env.plain : Env where
  clock n := 1767225600000000 + n * 1000000
  uuid4 n := "00000000-0000-4000-8000-" ++ padded 12 n
  isoformat t := padded 20 t.toNat
  parseIsoUtc _ := none
  redactSecrets s := s
  autoFormatMarkdown s := s
  normalizeNfkc s := s
  computeContentHash s := s
  entitySourceHash title content := title ++ content
  retrievalTextHash s := s
  qualityHardErrors _ := []
  isWordChar c := c.isAlphanum || c == '_'
  formatFloat _ _ := "0.0000"
  embeddable s := s != ""
  similarity _ _ := 1

end SaltMdb
