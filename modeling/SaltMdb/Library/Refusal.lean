import SaltMdb.Library.Txn

/-! Refusals that leave the durable state alone. A computation refuses by a value that is not `accepted` or by an
exception, and an enclosing transaction undoes what it wrote only in the second case. -/

namespace Transactions
namespace Txn

variable {δ τ ε α β : Type}

def RefusesCleanlyAt (accepted : α → Bool) (m : Txn δ τ ε α) (w : World δ τ) : Prop :=
  ∀ a v, m.run w = (.ok a, v) → accepted a = false → v.durable = w.durable

def RaisesCleanlyAt (m : Txn δ τ ε α) (w : World δ τ) : Prop :=
  ∀ e v, m.run w = (.error e, v) → v.durable = w.durable

/-- No refusal of either kind leaves a write behind. -/
structure CleanAt (accepted : α → Bool) (m : Txn δ τ ε α) (w : World δ τ) : Prop where
  refuses : RefusesCleanlyAt accepted m w
  raises : RaisesCleanlyAt m w

/-- No path of `m` writes. -/
def Silent (m : Txn δ τ ε α) : Prop := Within (fun a b => b = a) m

variable {accepted : α → Bool} {wanted : β → Bool} {m : Txn δ τ ε α} {f : α → Txn δ τ ε β} {w : World δ τ}

theorem Silent.durable (silent : Silent m) (w : World δ τ) : (m.run w).2.durable = w.durable := silent w

theorem Silent.raises (silent : Silent m) : RaisesCleanlyAt m w := by
  intro e v raised
  have same := silent.durable w
  rwa [raised] at same

theorem Silent.clean (silent : Silent m) : CleanAt accepted m w where
  refuses a v ran _ := by
    have same := silent.durable w
    rwa [ran] at same
  raises := silent.raises

theorem raisesCleanlyAt_atomic : RaisesCleanlyAt (atomic m) w :=
  fun _ _ raised => (atomic_error raised).1

/-- Whatever returns is accepted. -/
def Accepts (accepted : α → Bool) (m : Txn δ τ ε α) : Prop := ∀ w a v, m.run w = (.ok a, v) → accepted a = true

theorem Accepts.refuses (h : Accepts accepted m) : RefusesCleanlyAt accepted m w := by
  intro a v ran refused
  rw [h w a v ran] at refused
  simp at refused

/-- A rollback covers the exceptions and nothing else. -/
theorem cleanAt_atomic : CleanAt accepted (atomic m) w ↔ RefusesCleanlyAt accepted m w := by
  constructor
  · intro clean a v ran
    exact clean.refuses a v (atomic_ok.mpr ran)
  · intro refuses
    exact ⟨fun a v ran => refuses a v (atomic_ok.mp ran), raisesCleanlyAt_atomic⟩

end Txn
end Transactions
