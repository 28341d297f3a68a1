import SaltMdb.Context.Conflicts

/-! `pack_context_budget`: greedy packing of the hits and the candidates into one budget of tokens. -/

namespace SaltMdb

structure PackedSection where
  packed : List EntityId
  dropped : List EntityId
deriving DecidableEq, Repr

structure BudgetUse where
  unit : String
  limit : Int
  used : Nat
  primaryTruncated : Bool
  primaryDroppedCount : Nat
  expansionTruncated : Bool
  expansionDroppedCount : Nat
  conflictReserveTokensUsed : Nat
  orphanCommunityReserveTokensUsed : Nat
  communityMemberTruncated : Bool
  communityMemberDroppedCount : Nat
  communityRepresentativeReserveTokensUsed : Nat
deriving DecidableEq, Repr

structure BudgetResult where
  primary : PackedSection
  expansion : PackedSection
  communityMember : PackedSection
  conflictOnlyEntityIds : List EntityId
  communityRepresentativeEntityIds : List EntityId
  tokenCounts : EntityId → Nat
  budget : BudgetUse

def contextBudgetDefaultTokens : Int := 8000

def contextBudgetMaxTokens : Int := 32000

/-- What of a list fits beside what is used already, and how much is used then. -/
def packSection (tokenCounts : EntityId → Nat) (limit : Int) : Nat → List EntityId → PackedSection × Nat
  | used, [] => (⟨[], []⟩, used)
  | used, id :: ids =>
    if ((used + tokenCounts id : Nat) : Int) ≤ limit then
      let rest := packSection tokenCounts limit (used + tokenCounts id) ids
      (⟨id :: rest.1.packed, rest.1.dropped⟩, rest.2)
    else
      let rest := packSection tokenCounts limit used ids
      (⟨rest.1.packed, id :: rest.1.dropped⟩, rest.2)

/-- A memory without content costs nothing. -/
def loadTokenCounts (db : Db) (tokenCount : String → Nat) (id : EntityId) : Nat :=
  let content := ((db.entities.find id).map (·.fullContent)).getD ""
  if content = "" then 0 else tokenCount content

def tokenSum (tokenCounts : EntityId → Nat) (ids : List EntityId) : Nat := (ids.map tokenCounts).sum

def effectiveBudget (budgetTokens : Option Int) : Int := min (budgetTokens.getD contextBudgetDefaultTokens) contextBudgetMaxTokens

/-- Without any ids this is the empty result. -/
def packContextBudget (db : Db) (tokenCount : String → Nat) (expansion : ExpansionResult) (primaryHits : List PrimaryHit)
    (conflicts : ConflictSetsResult) (budgetTokens : Option Int) (orphanCommunityEntityIds communityMemberIds communityRepresentativeIds : List EntityId) :
    BudgetResult :=
  let limit := effectiveBudget budgetTokens
  let conflictOnlyIds := (conflicts.conflictSets.flatMap fun c => (c.members.filter (·.inclusion = .conflictOnly)).map (·.id)).dedup
  let tokens := loadTokenCounts db tokenCount
  let primary := packSection tokens limit 0 (primaryHits.map (·.id))
  let candidates := packSection tokens limit primary.2 (expansion.expansionCandidates.map (·.entityId))
  let members := packSection tokens limit candidates.2 communityMemberIds
  { primary := primary.1
    expansion := candidates.1
    communityMember := members.1
    conflictOnlyEntityIds := conflictOnlyIds.insertionSort (· ≤ ·)
    communityRepresentativeEntityIds := communityRepresentativeIds.dedup.insertionSort (· ≤ ·)
    tokenCounts := tokens
    budget := {
      unit := "tokens"
      limit := limit
      used := members.2
      primaryTruncated := !primary.1.dropped.isEmpty
      primaryDroppedCount := primary.1.dropped.length
      expansionTruncated := !candidates.1.dropped.isEmpty
      expansionDroppedCount := candidates.1.dropped.length
      conflictReserveTokensUsed := tokenSum tokens conflictOnlyIds
      orphanCommunityReserveTokensUsed := tokenSum tokens orphanCommunityEntityIds
      communityMemberTruncated := !members.1.dropped.isEmpty
      communityMemberDroppedCount := members.1.dropped.length
      communityRepresentativeReserveTokensUsed := tokenSum tokens communityRepresentativeIds.dedup } }

/-! ### What packing keeps -/

section
variable (tokens : EntityId → Nat) (limit : Int)

@[simp] theorem tokenSum_nil : tokenSum tokens [] = 0 := rfl

@[simp] theorem tokenSum_cons (id : EntityId) (ids : List EntityId) : tokenSum tokens (id :: ids) = tokens id + tokenSum tokens ids :=
  List.sum_cons

@[simp] theorem tokenSum_append (ids ids' : List EntityId) : tokenSum tokens (ids ++ ids') = tokenSum tokens ids + tokenSum tokens ids' := by
  rw [tokenSum, List.map_append, List.sum_append]
  rfl

/-- The packed and the dropped share out the list, the packed are what is used, and they stay within the limit. -/
theorem packSection_perm (used : Nat) (ids : List EntityId) :
    ((packSection tokens limit used ids).1.packed ++ (packSection tokens limit used ids).1.dropped).Perm ids := by
  induction ids generalizing used with
  | nil => exact .nil
  | cons id ids ih =>
    unfold packSection
    split
    · exact (ih _).cons id
    · exact List.perm_middle.trans ((ih used).cons id)

theorem packSection_used (used : Nat) (ids : List EntityId) :
    (packSection tokens limit used ids).2 = used + tokenSum tokens (packSection tokens limit used ids).1.packed := by
  induction ids generalizing used with
  | nil => rfl
  | cons id ids ih =>
    unfold packSection
    split
    · dsimp only
      rw [ih, tokenSum_cons, Nat.add_assoc]
    · exact ih used

theorem packSection_within {used : Nat} (below : (used : Int) ≤ limit) (ids : List EntityId) :
    ((packSection tokens limit used ids).2 : Int) ≤ limit := by
  induction ids generalizing used with
  | nil => exact below
  | cons id ids ih =>
    unfold packSection
    split
    · rename_i fits
      exact ih fits
    · exact ih below

theorem packSection_grows (used : Nat) (ids : List EntityId) : used ≤ (packSection tokens limit used ids).2 := by
  rw [packSection_used]
  omega

/-- What was dropped does not fit beside what is used at the end. -/
theorem packSection_dropped (used : Nat) (ids : List EntityId) :
    ∀ id ∈ (packSection tokens limit used ids).1.dropped, limit < (((packSection tokens limit used ids).2 + tokens id : Nat) : Int) := by
  induction ids generalizing used with
  | nil => nofun
  | cons id ids ih =>
    unfold packSection
    split
    · exact ih _
    · rename_i misfit
      intro id' member
      rcases List.mem_cons.mp member with rfl | later
      · have grows := packSection_grows tokens limit used ids
        dsimp only
        omega
      · exact ih used id' later

end

end SaltMdb
