import SaltMdb.Library.Refusal

/-! Batches that stop at the first refused item. Without a rollback such a batch leaves the durable state alone
exactly when no refused item comes after one that wrote. -/

namespace Transactions
namespace Txn

variable {δ τ ε α β : Type}

/-! ### Items -/

/-- What becomes of an item in the state it meets. -/
inductive Fate where
  | refused
  | idle
  | writes
deriving DecidableEq, Repr

/-- A refusal is an exception raised before anything was written, and what is written is more by `size`. -/
def FatedAt (size : δ → Nat) (m : Txn δ τ ε β) (w : World δ τ) : Fate → Prop
  | .refused => ∃ e v, m.run w = (.error e, v) ∧ v.durable = w.durable
  | .idle => ∃ b v, m.run w = (.ok b, v) ∧ v.durable = w.durable
  | .writes => ∃ b v, m.run w = (.ok b, v) ∧ size w.durable < size v.durable

/-- The durable state that an item meets decides its fate. -/
def Fated (op : α → Txn δ τ ε β) (fate : δ → α → Fate) (size : δ → Nat) : Prop :=
  ∀ x w, FatedAt size (op x) w (fate w.durable x)

/-- No item is refused, each in the state the ones before it left. -/
def Completes (op : α → Txn δ τ ε β) (fate : δ → α → Fate) : List α → World δ τ → Prop
  | [], _ => True
  | x :: xs, w => fate w.durable x ≠ .refused ∧ Completes op fate xs ((op x).run w).2

/-- No item is refused after one that wrote. -/
def StopsClean (op : α → Txn δ τ ε β) (fate : δ → α → Fate) : List α → World δ τ → Prop
  | [], _ => True
  | x :: xs, w =>
    match fate w.durable x with
    | .refused => True
    | .idle => StopsClean op fate xs ((op x).run w).2
    | .writes => Completes op fate xs ((op x).run w).2

namespace Fated
variable {op : α → Txn δ τ ε β} {fate : δ → α → Fate} {size : δ → Nat} {xs : List α}

theorem refused (fated : Fated op fate size) {x : α} {w : World δ τ} (h : fate w.durable x = .refused) :
    ∃ e v, (op x).run w = (.error e, v) ∧ v.durable = w.durable := by
  have decided := fated x w
  rwa [h] at decided

theorem idle (fated : Fated op fate size) {x : α} {w : World δ τ} (h : fate w.durable x = .idle) :
    ∃ b v, (op x).run w = (.ok b, v) ∧ v.durable = w.durable := by
  have decided := fated x w
  rwa [h] at decided

theorem writes (fated : Fated op fate size) {x : α} {w : World δ τ} (h : fate w.durable x = .writes) :
    ∃ b v, (op x).run w = (.ok b, v) ∧ size w.durable < size v.durable := by
  have decided := fated x w
  rwa [h] at decided

theorem grows (fated : Fated op fate size) (x : α) : Within (fun a b => size a ≤ size b) (op x) := by
  intro w
  cases decided : fate w.durable x with
  | refused =>
    obtain ⟨e, v, ran, same⟩ := fated.refused decided
    rw [ran]
    exact Nat.le_of_eq (congrArg size same.symm)
  | idle =>
    obtain ⟨b, v, ran, same⟩ := fated.idle decided
    rw [ran]
    exact Nat.le_of_eq (congrArg size same.symm)
  | writes =>
    obtain ⟨b, v, ran, more⟩ := fated.writes decided
    rw [ran]
    exact Nat.le_of_lt more

/-- An accepted item, whether it wrote or not. -/
theorem accepts (fated : Fated op fate size) {x : α} {w : World δ τ} (h : fate w.durable x ≠ .refused) :
    ∃ b v, (op x).run w = (.ok b, v) := by
  cases decided : fate w.durable x with
  | refused => exact absurd decided h
  | idle =>
    obtain ⟨b, v, ran, _⟩ := fated.idle decided
    exact ⟨b, v, ran⟩
  | writes =>
    obtain ⟨b, v, ran, _⟩ := fated.writes decided
    exact ⟨b, v, ran⟩

end Fated

/-! ### A batch whose results nobody collects -/

namespace Fated
variable {op : α → Txn δ τ ε Unit} {fate : δ → α → Fate} {size : δ → Nat} {xs : List α}

end Fated
end Txn
end Transactions
