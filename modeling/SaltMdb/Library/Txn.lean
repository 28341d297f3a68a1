import Mathlib.Tactic.Lift

/-! Transactions over a state that outlives its own failures: an exception is returned together with
the state it was raised in, and only an enclosing `atomic` undoes the durable part of it. -/

namespace Transactions

/-- `durable` is what a rollback restores; `transient` is progress a rollback keeps. -/
structure World (δ τ : Type) where
  durable : δ
  transient : τ

def Txn (δ τ ε α : Type) : Type := World δ τ → Except ε α × World δ τ

variable {δ τ ε α β γ : Type}

namespace Txn

def run (m : Txn δ τ ε α) (w : World δ τ) : Except ε α × World δ τ := m w

instance : Monad (Txn δ τ ε) where
  pure a := fun w => (.ok a, w)
  bind m f := fun w =>
    match m w with
    | (.ok a, w') => f a w'
    | (.error e, w') => (.error e, w')

instance : MonadExceptOf ε (Txn δ τ ε) where
  throw e := fun w => (.error e, w)
  tryCatch m h := fun w =>
    match m w with
    | (.ok a, w') => (.ok a, w')
    | (.error e, w') => h e w'

def read : Txn δ τ ε δ := fun w => (.ok w.durable, w)

def modify (f : δ → δ) : Txn δ τ ε Unit := fun w => (.ok (), { w with durable := f w.durable })

def advance (f : τ → α × τ) : Txn δ τ ε α :=
  fun w => (.ok (f w.transient).1, { w with transient := (f w.transient).2 })

def ofExcept (r : Except ε α) : Txn δ τ ε α := fun w => (r, w)

/-- Runs `m` and restores the durable state when it raises. -/
def atomic (m : Txn δ τ ε α) : Txn δ τ ε α := fun w =>
  match m w with
  | (.ok a, w') => (.ok a, w')
  | (.error e, w') => (.error e, { w' with durable := w.durable })

/-- Evaluates `f` on the items from left to right and collects what it returns. -/
def mapList (f : α → Txn δ τ ε β) : List α → Txn δ τ ε (List β)
  | [] => pure []
  | x :: xs => do
    let y ← f x
    let ys ← mapList f xs
    return y :: ys

def forEach (f : α → Txn δ τ ε Unit) : List α → Txn δ τ ε Unit
  | [] => pure ()
  | x :: xs => do
    f x
    forEach f xs

/-! ### Running the operations -/

@[simp] theorem run_pure (a : α) (w : World δ τ) :
    (pure a : Txn δ τ ε α).run w = (.ok a, w) := rfl

theorem run_bind (m : Txn δ τ ε α) (f : α → Txn δ τ ε β) (w : World δ τ) :
    (m >>= f).run w = match m.run w with
      | (.ok a, w') => (f a).run w'
      | (.error e, w') => (.error e, w') := rfl

@[simp] theorem run_throw (e : ε) (w : World δ τ) :
    (throw e : Txn δ τ ε α).run w = (.error e, w) := rfl

theorem run_tryCatch (m : Txn δ τ ε α) (h : ε → Txn δ τ ε α) (w : World δ τ) :
    (tryCatch m h).run w = match m.run w with
      | (.ok a, w') => (.ok a, w')
      | (.error e, w') => (h e).run w' := rfl

@[simp] theorem run_read (w : World δ τ) :
    (read : Txn δ τ ε δ).run w = (.ok w.durable, w) := rfl

@[simp] theorem run_modify (f : δ → δ) (w : World δ τ) :
    (modify f : Txn δ τ ε Unit).run w = (.ok (), { w with durable := f w.durable }) := rfl

@[simp] theorem run_advance (f : τ → α × τ) (w : World δ τ) :
    (advance f : Txn δ τ ε α).run w = (.ok (f w.transient).1, { w with transient := (f w.transient).2 }) := rfl

@[simp] theorem run_ofExcept (r : Except ε α) (w : World δ τ) :
    (ofExcept r : Txn δ τ ε α).run w = (r, w) := rfl

theorem bind_run_ok {m : Txn δ τ ε α} {f : α → Txn δ τ ε β} {w w' : World δ τ} {a : α}
    (h : m.run w = (.ok a, w')) : (m >>= f).run w = (f a).run w' := by
  rw [run_bind, h]

instance : LawfulMonad (Txn δ τ ε) :=
  LawfulMonad.mk' (Txn δ τ ε)
    (fun m => by funext w; rcases ran : m w with ⟨_ | _, _⟩ <;> simp only [Functor.map, ran] <;> rfl)
    (fun _ _ => rfl)
    (fun m f g => by funext w; simp only [bind]; rcases m w with ⟨_ | _, _⟩ <;> rfl)

/-! ### Taking a run apart -/

theorem bind_ok {m : Txn δ τ ε α} {f : α → Txn δ τ ε β} {w w' : World δ τ} {b : β}
    (h : (m >>= f).run w = (.ok b, w')) :
    ∃ a v, m.run w = (.ok a, v) ∧ (f a).run v = (.ok b, w') := by
  rw [run_bind] at h
  split at h
  · rename_i a v first
    exact ⟨a, v, first, h⟩
  · simp at h

theorem bind_error {m : Txn δ τ ε α} {f : α → Txn δ τ ε β} {w w' : World δ τ} {e : ε}
    (h : (m >>= f).run w = (.error e, w')) :
    m.run w = (.error e, w') ∨ ∃ a v, m.run w = (.ok a, v) ∧ (f a).run v = (.error e, w') := by
  rw [run_bind] at h
  split at h
  · rename_i a v first
    exact Or.inr ⟨a, v, first, h⟩
  · rename_i raised v first
    obtain ⟨same, rfl⟩ := Prod.mk.inj h
    cases same
    exact Or.inl first

theorem atomic_ok {m : Txn δ τ ε α} {w w' : World δ τ} {a : α} :
    (atomic m).run w = (.ok a, w') ↔ m.run w = (.ok a, w') := by
  simp only [atomic, run]
  split <;> simp_all

theorem atomic_error {m : Txn δ τ ε α} {w w' : World δ τ} {e : ε}
    (h : (atomic m).run w = (.error e, w')) :
    w'.durable = w.durable ∧ ∃ v, m.run w = (.error e, v) ∧ w'.transient = v.transient := by
  simp only [atomic, run] at h
  split at h
  · simp at h
  · rename_i raised v inner
    obtain ⟨same, rfl⟩ := Prod.mk.inj h
    cases same
    exact ⟨rfl, v, inner, rfl⟩

/-- An `atomic` inside an `atomic` adds nothing: both restore the state the outer one started in. -/
theorem atomic_atomic (m : Txn δ τ ε α) : atomic (atomic m) = atomic m := by
  funext w
  simp only [atomic]
  cases m w with
  | mk result v => cases result <;> rfl

/-! ### What every run keeps

`Within R m` bounds the durable effect of `m` on every path, the raising ones included. -/

def Within (R : δ → δ → Prop) (m : Txn δ τ ε α) : Prop :=
  ∀ w : World δ τ, R w.durable (m.run w).2.durable

variable {R : δ → δ → Prop}

theorem within_pure (refl : ∀ d, R d d) (a : α) : Within R (pure a : Txn δ τ ε α) :=
  fun w => refl w.durable

theorem within_throw (refl : ∀ d, R d d) (e : ε) : Within R (throw e : Txn δ τ ε α) :=
  fun w => refl w.durable

theorem within_read (refl : ∀ d, R d d) : Within R (read : Txn δ τ ε δ) :=
  fun w => refl w.durable

theorem within_advance (refl : ∀ d, R d d) (f : τ → α × τ) : Within R (advance f : Txn δ τ ε α) :=
  fun w => refl w.durable

theorem within_ofExcept (refl : ∀ d, R d d) (r : Except ε α) : Within R (ofExcept r : Txn δ τ ε α) :=
  fun w => refl w.durable

theorem within_modify {f : δ → δ} (step : ∀ d, R d (f d)) : Within R (modify f : Txn δ τ ε Unit) :=
  fun w => step w.durable

/-- The rules at one world, for a first part whose effect is only known there. -/
theorem within_bind_at (trans : ∀ a b c, R a b → R b c → R a c) {m : Txn δ τ ε α} {f : α → Txn δ τ ε β}
    {w : World δ τ} (first : R w.durable (m.run w).2.durable) (rest : ∀ a, Within R (f a)) :
    R w.durable ((m >>= f).run w).2.durable := by
  rw [run_bind]
  split
  · rename_i a v ran
    rw [ran] at first
    exact trans _ _ _ first (rest a v)
  · rename_i ran
    rw [ran] at first
    exact first

theorem within_tryCatch_at (trans : ∀ a b c, R a b → R b c → R a c) {m : Txn δ τ ε α} {h : ε → Txn δ τ ε α}
    {w : World δ τ} (body : R w.durable (m.run w).2.durable) (handler : ∀ e, Within R (h e)) :
    R w.durable ((tryCatch m h).run w).2.durable := by
  rw [run_tryCatch]
  split
  · rename_i ran
    rw [ran] at body
    exact body
  · rename_i e v ran
    rw [ran] at body
    exact trans _ _ _ body (handler e v)

theorem within_atomic_at (refl : ∀ d, R d d) {m : Txn δ τ ε α} {w : World δ τ}
    (body : R w.durable (m.run w).2.durable) : R w.durable ((atomic m).run w).2.durable := by
  simp only [atomic, run] at body ⊢
  split
  · rename_i ran
    rw [ran] at body
    exact body
  · exact refl w.durable

theorem within_bind (trans : ∀ a b c, R a b → R b c → R a c) {m : Txn δ τ ε α}
    {f : α → Txn δ τ ε β} (first : Within R m) (rest : ∀ a, Within R (f a)) : Within R (m >>= f) :=
  fun w => within_bind_at trans (first w) rest

/-- The rule for a body that continues from the state it has just read. -/
theorem within_read_bind {f : δ → Txn δ τ ε β}
    (rest : ∀ w : World δ τ, R w.durable ((f w.durable).run w).2.durable) :
    Within R ((read : Txn δ τ ε δ) >>= f) :=
  fun w => rest w

theorem within_tryCatch (trans : ∀ a b c, R a b → R b c → R a c) {m : Txn δ τ ε α}
    {h : ε → Txn δ τ ε α} (body : Within R m) (handler : ∀ e, Within R (h e)) :
    Within R (tryCatch m h) :=
  fun w => within_tryCatch_at trans (body w) handler

theorem within_atomic (refl : ∀ d, R d d) {m : Txn δ τ ε α} (body : Within R m) :
    Within R (atomic m) :=
  fun w => within_atomic_at refl (body w)

theorem within_forEach (refl : ∀ d, R d d) (trans : ∀ a b c, R a b → R b c → R a c)
    {f : α → Txn δ τ ε Unit} (each : ∀ x, Within R (f x)) (xs : List α) : Within R (forEach f xs) := by
  induction xs with
  | nil => exact within_pure refl ()
  | cons x xs ih => exact within_bind trans (each x) fun _ => ih

theorem within_mapList (refl : ∀ d, R d d) (trans : ∀ a b c, R a b → R b c → R a c)
    {f : α → Txn δ τ ε β} (each : ∀ x, Within R (f x)) (xs : List α) : Within R (mapList f xs) := by
  induction xs with
  | nil => exact within_pure refl []
  | cons x xs ih =>
    refine within_bind trans (each x) fun y => ?_
    exact within_bind trans ih fun ys => within_pure refl (y :: ys)

/-! ### Computations that never raise -/

def Total (m : Txn δ τ ε α) : Prop := ∀ w, ∃ a w', m.run w = (.ok a, w')

theorem total_not_error {m : Txn δ τ ε α} (total : Total m) {w w' : World δ τ} {e : ε} :
    m.run w ≠ (.error e, w') := by
  intro raised
  obtain ⟨a, v, ran⟩ := total w
  rw [ran] at raised
  simp at raised

theorem total_pure (a : α) : Total (pure a : Txn δ τ ε α) :=
  fun w => ⟨a, w, rfl⟩

theorem total_bind {m : Txn δ τ ε α} {f : α → Txn δ τ ε β} (first : Total m) (rest : ∀ a, Total (f a)) :
    Total (m >>= f) := by
  intro w
  obtain ⟨a, v, ran⟩ := first w
  rw [bind_run_ok ran]
  exact rest a v

theorem total_tryCatch (m : Txn δ τ ε α) {h : ε → Txn δ τ ε α} (handler : ∀ e, Total (h e)) :
    Total (tryCatch m h) := by
  intro w
  rw [run_tryCatch]
  split
  · exact ⟨_, _, rfl⟩
  · rename_i e v _
    exact handler e v

/-! ### Computations that never raise and keep to an effect -/

/-- `m` returns on every world, and its durable effect is within `R`. -/
def Settles (R : δ → δ → Prop) (m : Txn δ τ ε α) : Prop :=
  ∀ w, ∃ a w', m.run w = (.ok a, w') ∧ R w.durable w'.durable

theorem Settles.total {m : Txn δ τ ε α} (h : Settles R m) : Total m := by
  intro w
  obtain ⟨a, w', ran, _⟩ := h w
  exact ⟨a, w', ran⟩

theorem Settles.within {m : Txn δ τ ε α} (h : Settles R m) : Within R m := by
  intro w
  obtain ⟨a, w', ran, effect⟩ := h w
  rw [ran]
  exact effect

theorem Settles.mono {S : δ → δ → Prop} {m : Txn δ τ ε α} (h : Settles R m) (weaker : ∀ a b, R a b → S a b) :
    Settles S m := by
  intro w
  obtain ⟨a, w', ran, effect⟩ := h w
  exact ⟨a, w', ran, weaker _ _ effect⟩

theorem settles_pure (refl : ∀ d, R d d) (a : α) : Settles R (pure a : Txn δ τ ε α) :=
  fun w => ⟨a, w, rfl, refl w.durable⟩

theorem settles_read (refl : ∀ d, R d d) : Settles R (read : Txn δ τ ε δ) :=
  fun w => ⟨w.durable, w, rfl, refl w.durable⟩

theorem settles_modify {f : δ → δ} (step : ∀ d, R d (f d)) : Settles R (modify f : Txn δ τ ε Unit) :=
  fun w => ⟨(), _, rfl, step w.durable⟩

theorem settles_bind (trans : ∀ a b c, R a b → R b c → R a c) {m : Txn δ τ ε α} {f : α → Txn δ τ ε β}
    (first : Settles R m) (rest : ∀ a, Settles R (f a)) : Settles R (m >>= f) := by
  intro w
  obtain ⟨a, v, ran, head⟩ := first w
  obtain ⟨b, w', ran', tail⟩ := rest a v
  exact ⟨b, w', by rw [bind_run_ok ran, ran'], trans _ _ _ head tail⟩

theorem settles_forEach (refl : ∀ d, R d d) (trans : ∀ a b c, R a b → R b c → R a c)
    {f : α → Txn δ τ ε Unit} (each : ∀ x, Settles R (f x)) (xs : List α) : Settles R (forEach f xs) := by
  induction xs with
  | nil => exact settles_pure refl ()
  | cons x xs ih => exact settles_bind trans (each x) fun _ => ih

/-- From a durable state that meets `P` the computation returns, with an answer and a state that meet `Q`. -/
def Ensures (P : δ → Prop) (m : Txn δ τ ε α) (Q : α → δ → Prop) : Prop :=
  ∀ w, P w.durable → ∃ a w', m.run w = (.ok a, w') ∧ Q a w'.durable

section
variable {P : δ → Prop} {Q : α → δ → Prop}

theorem ensures_pure {a : α} (h : ∀ d, P d → Q a d) : Ensures P (pure a : Txn δ τ ε α) Q :=
  fun w holds => ⟨a, w, rfl, h _ holds⟩

theorem ensures_modify {f : δ → δ} {Q : Unit → δ → Prop} (h : ∀ d, P d → Q () (f d)) :
    Ensures P (modify f : Txn δ τ ε Unit) Q :=
  fun _ holds => ⟨(), _, rfl, h _ holds⟩

theorem ensures_bind {m : Txn δ τ ε α} {f : α → Txn δ τ ε β} {Q' : β → δ → Prop} (first : Ensures P m Q)
    (rest : ∀ a, Ensures (Q a) (f a) Q') : Ensures P (m >>= f) Q' := by
  intro w holds
  obtain ⟨a, v, ran, middle⟩ := first w holds
  obtain ⟨b, w', ran', last⟩ := rest a v middle
  exact ⟨b, w', by rw [bind_run_ok ran, ran'], last⟩

/-- A computation that settles carries along what its effect keeps. -/
theorem Settles.ensures {m : Txn δ τ ε α} (settles : Settles R m) (keeps : ∀ d d', R d d' → P d → P d') :
    Ensures P m fun _ => P := by
  intro w holds
  obtain ⟨a, w', ran, effect⟩ := settles w
  exact ⟨a, w', ran, keeps _ _ effect holds⟩

theorem ensures_forEach {f : α → Txn δ τ ε Unit} (each : ∀ x, Ensures P (f x) fun _ => P) (xs : List α) :
    Ensures P (forEach f xs) fun _ => P := by
  induction xs with
  | nil => exact ensures_pure fun _ holds => holds
  | cons x xs ih => exact ensures_bind (each x) fun _ => ih

end

theorem atomic_of_total {m : Txn δ τ ε α} (total : Total m) : atomic m = m := by
  funext w
  obtain ⟨a, w', ran⟩ := total w
  simp only [run] at ran
  simp only [atomic, ran]

theorem tryCatch_of_total {m : Txn δ τ ε α} (total : Total m) (h : ε → Txn δ τ ε α) : tryCatch m h = m := by
  funext w
  obtain ⟨a, w', ran⟩ := total w
  have caught := run_tryCatch m h w
  rw [ran] at caught
  exact caught.trans ran.symm

end Txn

/-! ### Checks

A check that raises is an `Except`; these take a passed sequence of them apart. -/

namespace Checks

theorem bind_ok {x : Except ε α} {f : α → Except ε β} {b : β} (h : (x >>= f) = .ok b) :
    ∃ a, x = .ok a ∧ f a = .ok b := by
  cases x with
  | ok a => exact ⟨a, rfl, h⟩
  | error e => exact absurd h (by simp [bind, Except.bind])

/-- A check that is passed before the rest. -/
theorem unless_ok {c : Prop} [Decidable c] {e : ε} {rest : Unit → Except ε β} {b : β}
    (h : (if c then Except.error e >>= rest else rest ()) = .ok b) : ¬c ∧ rest () = .ok b := by
  by_cases refused : c
  · rw [if_pos refused] at h
    exact absurd h (by simp [bind, Except.bind])
  · rw [if_neg refused] at h
    exact ⟨refused, h⟩

theorem mapError_ok {ε' : Type} {x : Except ε α} {g : ε → ε'} {a : α} (h : x.mapError g = .ok a) : x = .ok a := by
  cases x with
  | ok a' => exact congrArg Except.ok (Except.ok.inj h)
  | error e => exact absurd h (by simp [Except.mapError])

/-- Whatever the check raises satisfies `P`. -/
def Refuses (P : ε → Prop) (x : Except ε α) : Prop := ∀ e, x = .error e → P e

variable {P : ε → Prop}

theorem refuses_ok (a : α) : Refuses P (.ok a : Except ε α) := by
  intro e h
  simp at h

theorem refuses_error {e : ε} (holds : P e) : Refuses P (.error e : Except ε α) := by
  intro e' h
  rwa [← Except.error.inj h]

theorem refuses_bind {x : Except ε α} {f : α → Except ε β} (first : Refuses P x) (rest : ∀ a, Refuses P (f a)) :
    Refuses P (x >>= f) := by
  cases x with
  | ok a => exact rest a
  | error e =>
    show Refuses P (Except.error e : Except ε β)
    exact refuses_error (first e rfl)

theorem refuses_unless {c : Prop} [Decidable c] {e : ε} {rest : Unit → Except ε β} (holds : P e) (later : Refuses P (rest ())) :
    Refuses P (if c then Except.error e >>= rest else rest ()) := by
  split
  · exact refuses_bind (refuses_error holds) fun _ => later
  · exact later

theorem refuses_mapError {ε' : Type} {P : ε' → Prop} {g : ε → ε'} (all : ∀ e, P (g e)) (x : Except ε α) :
    Refuses P (x.mapError g) := by
  cases x with
  | ok a => exact refuses_ok a
  | error e => exact refuses_error (all e)

end Checks
end Transactions
