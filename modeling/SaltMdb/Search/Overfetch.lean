import SaltMdb.Search.Gate

/-! Whether the windows of a strict search stop only when there is nothing left to find. -/

namespace SaltMdb
open Nearest Fusion

/-! ### The loop -/

section
variable {compute : Nat → SearchPool} {wanted start : Nat}

/-- The windows that the loop tries, each after one that was too short and not exhausted. -/
inductive Visits (compute : Nat → SearchPool) (wanted start : Nat) : Nat → Prop
  | first : Visits compute wanted start start
  | wider {window : Nat} (earlier : Visits compute wanted start window) (short : (compute window).orderedIds.length < wanted)
      (more : (compute window).exhausted = false) (below : window < strictOverfetchCandidateCap) :
      Visits compute wanted start (min (window * 2) strictOverfetchCandidateCap)

/-- A loop whose first pass is exhausted makes no other. -/
theorem Visits.only {window : Nat} (visited : Visits compute wanted start window) (exhausted : (compute start).exhausted = true) :
    window = start := by
  induction visited with
  | first => rfl
  | wider _ _ more _ ih =>
    rw [ih, exhausted] at more
    simp at more

/-- A visited window that gives enough, or is exhausted, is the one the loop stops at. -/
theorem Visits.stop {window : Nat} (positive : 0 < start) (visited : Visits compute wanted start window)
    (stops : ¬ ((compute window).orderedIds.length < wanted ∧ (compute window).exhausted = false ∧ window < strictOverfetchCandidateCap)) :
    (overfetch compute wanted start positive).1 = window := by
  have back : ∀ {v : Nat}, Visits compute wanted start v → ∀ (pos : 0 < v),
      overfetch compute wanted start positive = overfetch compute wanted v pos := by
    intro v visited
    induction visited with
    | first => exact fun _ => rfl
    | @wider v earlier short more below ih =>
      intro pos
      have posV : 0 < v := by
        have capPos : 0 < strictOverfetchCandidateCap := by decide
        omega
      rw [ih posV]
      conv_lhs => unfold overfetch
      dsimp only
      rw [dif_pos ⟨short, more, below⟩]
  have pos : ∀ {v : Nat}, Visits compute wanted start v → 0 < v := by
    intro v visited
    induction visited with
    | first => exact positive
    | wider _ _ _ _ ih =>
      have capPos : 0 < strictOverfetchCandidateCap := by decide
      omega
  rw [back visited (pos visited)]
  unfold overfetch
  dsimp only
  rw [dif_neg stops]

end

/-! ### What a pass considers -/

variable {ν δ : Type*} [LinearOrder δ] {s : SearchStore ν δ} {clauses : Clauses} {controls : SearchControls} {now : Instant} {id : EntityId}

/-- Every id that a channel gives a rank. -/
def ChannelRows.names (channels : ChannelRows) : List EntityId :=
  channels.ftsRows ++ channels.semanticRows ++ channels.chunkRows ++ channels.retrievalFtsRows ++ channels.retrievalVectorRows

/-- Every memory with a vector that the filters let pass is among the rows of a pass, and the window has room for all of these
rows. -/
structure SearchStore.Covered (s : SearchStore ν δ) (clauses : Clauses) (controls : SearchControls) (window : Nat) : Prop where
  entities : ∀ row ∈ s.corpus.entityEmbeddings, s.corpus.eligibleEntity clauses row = true →
    row.entityId ∈ (s.gatherChannels clauses controls window).names
  retrieval : controls.useRetrievalTextCandidates = true → ∀ row ∈ s.retrievalEmbeddings, s.freshRetrieval clauses row = true →
    row.entityId ∈ (s.gatherChannels clauses controls window).names
  room : (s.gatherChannels clauses controls window).names.dedup.length ≤ window

/-! ### Exhaustion -/

end SaltMdb
